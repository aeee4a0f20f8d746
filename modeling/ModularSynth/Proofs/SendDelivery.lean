-- Where the signal of a compiled send arrives. The compiler gives the place of a unit six bits
-- of an address, and a machine reads five of them: so a send reaches its target if that is
-- among the first places of its voice, and from place 31 on it means another unit or none.
import ModularSynth.Proofs.Sends
import ModularSynth.Proofs.SendTargets
import ModularSynth.Proofs.Voices

namespace ModularSynth

open Assembly

/-! ## The voices of a send -/

namespace Patch

variable {patch : Patch}

/-- The voices in which a send of a voice has its target, given the target's instrument: the
voice itself, one voice of that instrument, or all of them. -/
def sendTargets (patch : Patch) (i : Nat) (u : PatchUnit) (target voice : Nat) : List Nat :=
  if target = i ∧ u.param "voice" = 0 then [voice]
  else if 0 < u.param "voice" then [patch.firstVoice target + (u.param "voice" - 1).toNat]
  else (List.range ((patch.instruments[target]?.map (·.numVoices)).getD 0)).map
    (patch.firstVoice target + ·)

/-- What a send of a voice means, if its target is at a place of an instrument. -/
def delivery (patch : Patch) (i k : Nat) (u : PatchUnit) (target place voice : Nat) : Delivery where
  voice
  slot := patch.slotOf i k
  targets := patch.sendTargets i u target voice
  place
  port := (u.param "port").toNat
  channels := if u.isStereo then 2 else 1
  amount := operand (u.param "amount")

/-- The voices of the target are voices of its instrument. -/
theorem sendTargets_mem {i target voice w : Nat} {u : PatchUnit} {instrument : Instrument}
    (ht : patch.instruments[target]? = some instrument)
    (hv : patch.instrumentForVoice voice = some i)
    (range : u.param "voice" ≤ instrument.numVoices)
    (hw : w ∈ patch.sendTargets i u target voice) :
    patch.instrumentForVoice w = some target := by
  unfold sendTargets at hw
  split at hw
  · rename_i here
    rw [List.mem_singleton.mp hw, hv, here.1]
  · split at hw
    · rw [List.mem_singleton.mp hw]
      exact instrumentForVoice_eq ht (by omega)
    · obtain ⟨x, hx, rfl⟩ := List.mem_map.mp hw
      rw [ht] at hx
      exact instrumentForVoice_eq ht (List.mem_range.mp hx)

theorem sendTargets_nodup (i : Nat) (u : PatchUnit) (target voice : Nat) :
    (patch.sendTargets i u target voice).Nodup := by
  unfold sendTargets
  split
  · exact List.nodup_singleton _
  · split
    · exact List.nodup_singleton _
    · exact List.nodup_range.map (fun a b h => Nat.add_left_cancel h)

/-- A send to several voices leaves its own. -/
theorem sendTargets_elsewhere {i target voice : Nat} {u : PatchUnit} {instrument : Instrument}
    (ht : patch.instruments[target]? = some instrument)
    (hv : patch.instrumentForVoice voice = some i)
    (range : 0 ≤ u.param "voice" ∧ u.param "voice" ≤ instrument.numVoices) :
    (patch.sendTargets i u target voice).length ≤ 1 ∨
      voice ∉ patch.sendTargets i u target voice := by
  by_cases several : (patch.sendTargets i u target voice).length ≤ 1
  · exact .inl several
  · refine .inr fun mem => several ?_
    have same := sendTargets_mem ht hv range.2 mem
    rw [hv, Option.some_inj] at same
    unfold sendTargets
    by_cases h : u.param "voice" = 0
    · rw [if_pos ⟨same.symm, h⟩]
      exact Nat.le_refl 1
    · rw [if_neg (fun h' => h h'.2), if_pos (by omega)]
      exact Nat.le_refl 1

end Patch

/-! ## The addresses of a send -/

/-- The address of a voice and a place means no unit to a machine, although it is one. -/
def Lost (place : Nat) (w : Nat) : Prop :=
  place = 31 ∨ place = 62 ∧ w = 31

namespace Assembly

theorem aims_local (u : PatchUnit) {l : UnitLabel} (h : l.slot < 63) (voice : Nat)
    (port : 0 ≤ u.param "port" ∧ u.param "port" ≤ 7) :
    Aims voice (l.slot % 32) (u.param "port").toNat (popsSignal u) (fun _ => l.slot = 31) voice
      (sendPort u + sendPop u + l.localAddress) := by
  obtain ⟨hvoice, hplace, hport, hpop⟩ := SendAddress.fields_of_local h
    (show (u.param "port" % 8).toNat < 8 by omega) (popsSignal_le u) (localTarget_toNat u h.le)
  by_cases gone : l.slot = 31
  · exact .inl ⟨gone, by omega⟩
  · exact .inr ⟨gone, by rw [hvoice]; rfl, by omega, by omega, hpop⟩

theorem aims_global (u : PatchUnit) {l : UnitLabel} (h : l.slot < 63) (voice x : Nat)
    (hx : l.firstVoice + x < 32) (port : 0 ≤ u.param "port" ∧ u.param "port" ≤ 7) {pop : UInt16}
    {popped : Nat} (hp : pop.toNat = 8 * popped) (hle : popped ≤ 1) :
    Aims voice (l.slot % 32) (u.param "port").toNat popped (Lost l.slot) (l.firstVoice + x)
      (sendPort u + SendAddress.globalBit + x.toUInt16 * SendAddress.voiceStride + pop +
        l.globalAddress) := by
  have fields := SendAddress.fields_of_global hx h (show (u.param "port" % 8).toNat < 8 by omega)
    hle (globalTarget_toNat u h.le x hp)
  unfold Lost
  split at fields
  · exact .inl ⟨by omega, fields⟩
  · obtain ⟨hvoice, hplace, hport, hpop⟩ := fields
    by_cases gone : l.slot = 31
    · exact .inl ⟨.inl gone, by omega⟩
    · exact .inr ⟨by omega, by rw [hvoice]; rfl, by omega, by omega, hpop⟩

theorem sendVoices_lt {u : PatchUnit} {n x : Nat} (range : u.param "voice" ≤ n)
    (hx : x ∈ sendVoices u n) : x < n := by
  simp only [sendVoices] at hx
  split at hx
  · rw [List.mem_singleton.mp hx]
    omega
  · exact List.mem_range.mp hx

theorem sendVoices_ne_nil (u : PatchUnit) {n : Nat} (h : 1 ≤ n) : sendVoices u n ≠ [] := by
  simp only [sendVoices]
  split
  · simp
  · rw [ne_eq, List.range_eq_nil]
    omega

/-- The references of a send to voices of an instrument resolve to addresses that mean the
target in each of these voices. -/
theorem voiceReferences_aim (u : PatchUnit) {l : UnitLabel} (h : l.slot < 63) (voice : Nat)
    (port : 0 ≤ u.param "port" ∧ u.param "port" ≤ 7)
    {find : (UnitLabel → Bool) → Option UnitLabel}
    (found : find (fun l => l.id == u.param "target") = some l) {voices : List Nat}
    (some_voice : voices ≠ []) (few : ∀ x ∈ voices, l.firstVoice + x < 32) :
    AllAim voice (l.slot % 32) (u.param "port").toNat (popsSignal u) (Lost l.slot)
      (voices.map (l.firstVoice + ·)) ((voiceReferences u voices).map (·.resolve find)) := by
  have resolved : ∀ offset, Reference.resolve find (.anywhere (u.param "target") offset) =
      offset + l.globalAddress := fun offset => by simp only [Reference.resolve, found]
  induction voices with
  | nil => exact absurd rfl some_voice
  | cons x rest ih =>
    have hx := few x List.mem_cons_self
    cases rest with
    | nil =>
      have aim := aims_global u h voice x hx port (sendPop_toNat u) (popsSignal_le u)
      simp only [voiceReferences, List.map_cons, List.map_nil, resolved, List.isEmpty_nil, if_true]
      exact .last aim
    | cons y rest =>
      have aim := aims_global u h voice x hx port (show (0 : UInt16).toNat = 8 * 0 from rfl)
        (Nat.zero_le 1)
      rw [UInt16.add_zero] at aim
      rw [voiceReferences, List.map_cons, List.map_cons]
      simp only [List.isEmpty_cons, Bool.false_eq_true, if_false]
      rw [List.map_cons, resolved]
      exact .more aim (ih (by simp) fun z hz => few z (List.mem_cons_of_mem _ hz))

/-- The code of a send is an opcode for each of its references. -/
theorem Emits.send_linked {patch : Patch} {i firstVoice slot delayStart : Nat} {u : PatchUnit}
    {samples known : List SampleOffset} {a : AssembledUnit}
    (h : Emits patch i firstVoice slot u delayStart samples a known) (hk : u.kind? = some .send)
    (find : (UnitLabel → Bool) → Option UnitLabel) :
    a.linked find = sendCode (opcodeByte .send u) (operand (u.param "amount"))
      ((sendReferences patch i u).map (·.resolve find)) := by
  obtain ⟨kind, hkind, code⟩ := h.code
  rw [hk] at hkind
  cases hkind
  have leading : leadingOperands u = [operand (u.param "amount")] := by
    rw [leadingOperands, hk]
    rfl
  simp only [instructions, hk, Except.ok.injEq, Prod.mk.injEq, leading] at code
  rw [AssembledUnit.linked, ← code.1, sendCode, List.map_map, List.map_map]
  rfl

/-- Does a send of a voice find no unit, if its target is at a place of an instrument? -/
def lostSend (i : Nat) (u : PatchUnit) (target place w : Nat) : Prop :=
  if target = i ∧ u.param "voice" = 0 then place = 31 else Lost place w

theorem lostSend_place {i target place w : Nat} {u : PatchUnit}
    (h : lostSend i u target place w) : place = 31 ∨ place = 62 ∧ w = 31 := by
  unfold lostSend at h
  split at h
  · exact .inl h
  · exact h

theorem lostSend_of_place (i : Nat) (u : PatchUnit) (target w : Nat) {place : Nat}
    (h : place = 31) : lostSend i u target place w := by
  unfold lostSend
  split
  · exact h
  · exact .inl h

/-- The references of a send resolve to addresses that mean its target in the right voices. -/
theorem sendReferences_aim {patch : Patch} {i ti tk : Nat} {u : PatchUnit} {l : UnitLabel}
    {target : Instrument} (hti : patch.instruments[ti]? = some target)
    (finds : patch.findUnit (u.param "target") = some (ti, tk)) (h : l.slot < 63)
    (first : l.firstVoice = patch.firstVoice ti) (few : patch.numVoices ≤ 32)
    (some_voice : 1 ≤ target.numVoices)
    (port : 0 ≤ u.param "port" ∧ u.param "port" ≤ 7)
    (range : 0 ≤ u.param "voice" ∧ u.param "voice" ≤ target.numVoices)
    {find : (UnitLabel → Bool) → Option UnitLabel}
    (near : ti = i → find (fun l => l.id == u.param "target" && l.instrument == i) = some l)
    (found : find (fun l => l.id == u.param "target") = some l) (voice : Nat) :
    AllAim voice (l.slot % 32) (u.param "port").toNat (popsSignal u) (lostSend i u ti l.slot)
      (patch.sendTargets i u ti voice) ((sendReferences patch i u).map (·.resolve find)) := by
  have inside : ∀ x < target.numVoices, l.firstVoice + x < 32 := by
    intro x hx
    have := Patch.voice_lt (Patch.instrumentForVoice_eq hti hx)
    omega
  unfold lostSend
  rw [sendReferences]
  simp only [finds]
  by_cases here : ti = i ∧ u.param "voice" = 0
  · have resolved : Reference.resolve find (.inVoice i (u.param "target") (sendPort u + sendPop u)) =
        sendPort u + sendPop u + l.localAddress := by
      simp only [Reference.resolve, near here.1]
    simp only [here, and_self, if_true, Patch.sendTargets, List.map_cons, List.map_nil, resolved]
    exact .last (aims_local u h voice port)
  · have voices : patch.sendTargets i u ti voice =
        (sendVoices u target.numVoices).map (l.firstVoice + ·) := by
      rw [Patch.sendTargets, if_neg here, hti, first, sendVoices]
      by_cases one : 0 < u.param "voice"
      · simp [one]
      · simp [one]
    rw [if_neg here, voices, hti]
    simp only [here, if_false]
    exact voiceReferences_aim u h voice port found (sendVoices_ne_nil u some_voice)
      fun x hx => inside x (sendVoices_lt range.2 hx)

end Assembly

/-! ## Delivery -/

namespace Compiled

variable {patch : Patch} {bpm : Nat} {b : Bytecode} {assembled : List (List AssembledUnit)}

/-- The code of a send to a unit of the patch is an opcode for each voice that it means, with
an address of its target there. -/
theorem send_code (h : Compiled patch bpm b assembled) (inside : patch.InCatalogue)
    (unique : patch.IdsUnique) {i k ti tk : Nat} {u t : PatchUnit} {target : Instrument}
    (hu : patch.unit? i k = some u) (send : u.activeKind? = some .send)
    (ht : patch.unit? ti tk = some t) (active : t.isActive = true)
    (means : u.param "target" = t.id) (nonzero : t.id ≠ 0)
    (hti : patch.instruments[ti]? = some target) (place : patch.slotOf ti tk < 63)
    (range : u.param "voice" ≤ target.numVoices) :
    ∃ before addresses after,
      b.blocks[i]? = some (before ++
        (sendCode (opcodeByte .send u) (operand (u.param "amount")) addresses ++ after)) ∧
      before.length = patch.slotOf i k ∧ addresses.length = patch.emittedCount i u ∧
      patch.slotOf i k + addresses.length ≤ 63 ∧
      ∀ voice, AllAim voice (patch.slotOf ti tk % 32) (u.param "port").toNat (popsSignal u)
        (lostSend i u ti (patch.slotOf ti tk)) (patch.sendTargets i u ti voice) addresses := by
  obtain ⟨uactive, ukind⟩ := PatchUnit.activeKind?_eq_some send
  have ucat := inside.of_unit hu uactive
  have hvoice := ucat.param_bounds ukind "voice" 0 32 (by decide) (by decide)
  obtain ⟨pre, a, post, before, after, _, _, _, hi, block, slot, -, emits, -⟩ :=
    h.code_at inside.stereoFlags hu uactive
  obtain ⟨_, _, _, _, -, -, some_voice, -⟩ := h.of_instrument hti
  have finds : patch.findUnit (u.param "target") = some (ti, tk) :=
    means ▸ Patch.findUnit_eq unique ht active nonzero
  have near : ti = i → finder assembled i pre a post
      (fun l => l.id == u.param "target" && l.instrument == i) = some (labelAt patch ti tk t) := by
    intro here
    refine h.nearest_label unique hi ht active nonzero (by simp [labelAt, means, here]) ?_
    intro l hl
    simp only [Bool.and_eq_true, beq_iff_eq] at hl
    exact hl.1.trans means
  have found : finder assembled i pre a post (fun l => l.id == u.param "target") =
      some (labelAt patch ti tk t) := by
    refine h.nearest_label unique hi ht active nonzero (by simp [labelAt, means]) ?_
    intro l hl
    exact (eq_of_beq hl).trans means
  rw [emits.send_linked ukind] at block
  refine ⟨before, _, after, block, slot, ?_, ?_, fun voice => ?_⟩
  · rw [List.length_map, sendReferences_length patch i send]
  · rw [List.length_map, sendReferences_length patch i send, ← emits.count]
    exact emits.fits
  · exact sendReferences_aim hti finds place rfl h.few some_voice
      (ucat.param_bounds ukind "port" 0 7 (by decide) (by decide)) ⟨hvoice.1, range⟩ near found voice

end Compiled

/-- The faults of a send that has found its target: there is too little on the stack, or what
is left on top of it is no finite number. -/
def SendFault (p : Program) (channels : Nat) (s : Moment) (e : RenderFault) : Prop :=
  (e = .stackUnderflow ∧ s.stack.length < channels) ∨ (e = .nonFinite .send ∧ p.trap = true)

/-- A send has been carried out: the signal is where it should be, the operands of the send are
taken, and the signal has left the stack if it should. -/
structure Sent (patch : Patch) (u : PatchUnit) (d : Delivery) (more : List UInt8)
    (s s' : Moment) : Prop where
  enough : d.channels ≤ s.stack.length
  done : d.Done s s'
  operands : s'.operands = more
  stack : s'.stack = if u.param "sendpop" = 1 then s.stack.drop d.channels else s.stack

/-- Every send to a unit of the patch delivers its signal to the first opcode of that unit, in
the voices that it means, if fewer than 31 opcodes stand before this one. A send to a unit
further behind means the place 32 before the unit, or no place. -/
theorem compile_send_reaches {patch : Patch} {bpm : Nat} {b : Bytecode}
    (compiled : Bytecode.compile patch .all bpm = .ok b) (inside : patch.InCatalogue)
    (unique : patch.IdsUnique) {i k ti tk : Nat} {u t : PatchUnit} {target : Instrument}
    (hu : patch.unit? i k = some u) (send : u.activeKind? = some .send)
    (ht : patch.unit? ti tk = some t) (active : t.isActive = true)
    (means : u.param "target" = t.id) (nonzero : t.id ≠ 0)
    (hti : patch.instruments[ti]? = some target) (emitted : 0 < patch.emittedCount ti t)
    (range : u.param "voice" ≤ target.numVoices) :
    ∃ before code after targetBefore targetCode targetAfter,
      b.blocks[i]? = some (before ++ (code ++ after)) ∧ before.length = patch.slotOf i k ∧
      code.length = patch.emittedCount i u ∧
      b.blocks[ti]? = some (targetBefore ++ (targetCode ++ targetAfter)) ∧
      targetBefore.length = patch.slotOf ti tk ∧
      targetCode.length = patch.emittedCount ti t ∧
      ∀ (p : Program) (voice : Nat) (s : Moment) (more : List UInt8),
        patch.instrumentForVoice voice = some i → s.operands = code.operands ++ more →
        (patch.slotOf ti tk < 31 →
          Ends (p.runOpcodes voice (patch.slotOf i k) code.opcodes) s
            (fun _ s' => Sent patch u (patch.delivery i k u ti (patch.slotOf ti tk) voice) more s s')
            (fun e _ => SendFault p (if u.isStereo then 2 else 1) s e)) ∧
        (31 ≤ patch.slotOf ti tk →
          Ends (p.runOpcodes voice (patch.slotOf i k) code.opcodes) s
            (fun _ s' => 32 ≤ patch.slotOf ti tk ∧
              Sent patch u (patch.delivery i k u ti (patch.slotOf ti tk - 32) voice) more s s')
            (fun e _ => SendFault p (if u.isStereo then 2 else 1) s e ∨
              (∃ address, e = .invalidSendTarget address) ∧
                (patch.slotOf ti tk = 31 ∨
                  patch.slotOf ti tk = 62 ∧ 31 ∈ patch.sendTargets i u ti voice))) := by
  obtain ⟨assembled, h⟩ := Bytecode.compile_ok compiled
  obtain ⟨uactive, ukind⟩ := PatchUnit.activeKind?_eq_some send
  have flags := inside.stereoFlags
  obtain ⟨_, tbefore, tcode, tafter, -, tblock, tslot, tcount, tfits, -⟩ :=
    h.code_of_unit flags ht active
  have place : patch.slotOf ti tk < 63 := by omega
  obtain ⟨before, addresses, after, block, slot, count, fits, aims⟩ :=
    h.send_code inside unique hu send ht active means nonzero hti place range
  refine ⟨before, _, after, tbefore, tcode, tafter, block, slot, ?_, tblock, tslot, tcount, ?_⟩
  · rw [sendCode, List.length_map, count]
  intro p voice s more hv ho
  have aim := aims voice
  have voices : ∀ w ∈ patch.sendTargets i u ti voice, w < maxVoices := fun w hw =>
    Nat.lt_of_lt_of_le (Patch.voice_lt (Patch.sendTargets_mem hti hv range hw)) h.few
  have hvoice := (inside.of_unit hu uactive).param_bounds ukind "voice" 0 32 (by decide) (by decide)
  have run := sendCode_ends p (kindOf?_opcodeByte .send (flags.of_unit hu uactive)) aim voices
    (Patch.sendTargets_nodup i u ti voice) (Patch.sendTargets_elsewhere hti hv ⟨hvoice.1, range⟩)
    (Nat.lt_of_lt_of_le (Patch.voice_lt hv) h.few) (by rw [aim.length_eq]; exact fits) ho
  have channels : (CompiledUnit.mk (opcodeByte .send u) []).channels =
      if u.isStereo then 2 else 1 := by
    rw [CompiledUnit.channels, CompiledUnit.stereo,
      opcodeByte_stereo .send (flags.of_unit hu uactive)]
  have pops : (popsSignal u = 1) = (u.param "sendpop" = 1) := by
    unfold popsSignal
    split <;> simp [*]
  rw [channels] at run
  have stack_eq : ∀ s' : Moment, (s'.stack = if popsSignal u = 1 then
      s.stack.drop (if u.isStereo then 2 else 1) else s.stack) →
      s'.stack = if u.param "sendpop" = 1 then s.stack.drop (if u.isStereo then 2 else 1)
        else s.stack := fun s' hs => by rw [hs]; exact if_congr (iff_of_eq pops) rfl rfl
  constructor
  · intro near
    rw [Nat.mod_eq_of_lt (by omega)] at run
    refine run.mono ?_ ?_
    · rintro _ s' ⟨enough, -, operands, stack, done⟩
      exact ⟨enough, done, operands, stack_eq s' stack⟩
    · rintro e s' (fault | fault | ⟨-, w, -, gone⟩)
      · exact .inl fault
      · exact .inr fault
      · rcases lostSend_place gone with h | ⟨h, -⟩ <;> omega
  · intro far
    refine run.mono ?_ ?_
    · rintro _ s' ⟨enough, found, operands, stack, done⟩
      obtain ⟨w, hw⟩ := List.exists_mem_of_ne_nil _ aim.ne_nil
      have beyond : patch.slotOf ti tk ≠ 31 := fun h31 => found w hw (lostSend_of_place _ _ _ _ h31)
      rw [show patch.slotOf ti tk % 32 = patch.slotOf ti tk - 32 by omega] at done
      exact ⟨by omega, enough, done, operands, stack_eq s' stack⟩
    · rintro e s' (fault | fault | ⟨address, w, hw, gone⟩)
      · exact .inl (.inl fault)
      · exact .inl (.inr fault)
      · refine .inr ⟨address, ?_⟩
        rcases lostSend_place gone with h | ⟨h, rfl⟩
        · exact .inl h
        · exact .inr ⟨h, hw⟩

theorem compile_send_reaches_echo :
    ∃ b u before code after, Bytecode.compile echoPatch .all 100 = .ok b ∧
      echoPatch.unit? 0 1 = some u ∧ u.activeKind? = some .send ∧
      b.blocks[0]? = some (before ++ (code ++ after)) ∧ before.length = 1 ∧ code.length = 1 ∧
      ∀ (p : Program) (s : Moment) (more : List UInt8), s.operands = code.operands ++ more →
        Ends (p.runOpcodes 1 1 code.opcodes) s
          (fun _ s' => Sent echoPatch u (echoPatch.delivery 0 1 u 1 0 1) more s s')
          (fun e _ => SendFault p 1 s e) := by
  obtain ⟨b, compiled⟩ : ∃ b, Bytecode.compile echoPatch .all 100 = .ok b := ⟨_, rfl⟩
  obtain ⟨before, code, after, -, -, -, block, slot, count, -, -, -, delivers⟩ :=
    compile_send_reaches compiled (by decide +kernel) (by decide +kernel)
      (show echoPatch.unit? 0 1 = some _ from rfl) (by decide +kernel)
      (show echoPatch.unit? 1 0 = some _ from rfl) (by decide) (by decide +kernel) (by decide) rfl
      (by decide +kernel) (by decide +kernel)
  exact ⟨b, _, before, code, after, compiled, rfl, by decide +kernel, block, slot, count,
    fun p s more ho => (delivers p 1 s more rfl ho).1 (by decide +kernel)⟩

end ModularSynth
