-- What a send does to the ports of a machine. A send may be several opcodes, one for each
-- voice it reaches; together they add the signal to one place in each of these voices, leave
-- every other port as it was, and take the signal off the stack once or not at all.
import ModularSynth.Proofs.CodeRuns
import ModularSynth.Proofs.SendAddresses

namespace ModularSynth

/-- What has been sent to a port of a unit. -/
def Moment.port (s : Moment) (voice slot port : Nat) : Signal :=
  (s.machine.slot voice slot).port port

/-! ## Ports -/

theorem RunningUnit.port_deposit (amount : Signal) (n port : Nat) (stack : Stack) (slot : Slot)
    (r : Nat) :
    (deposit amount n port stack slot).port r =
      if port ≤ r ∧ r < 8 ∧ r < port + min n stack.length then
        slot.port r + stack[r - port]?.getD 0.0 * amount
      else slot.port r := by
  induction n generalizing port stack slot with
  | zero => rw [if_neg (by omega)]; rfl
  | succ n ih =>
    cases stack with
    | nil => rw [if_neg (by simp; omega)]; rfl
    | cons x stack =>
      rw [deposit, ih, List.length_cons]
      by_cases here : port = r
      · subst here
        rw [if_neg (by omega), Slot.port_addToPort]
        by_cases h8 : port < 8
        · rw [if_pos ⟨rfl, h8⟩, if_pos (by omega), Nat.sub_self]
          rfl
        · rw [if_neg (by omega), if_neg (by omega)]
      · have same : (slot.addToPort port (x * amount)).port r = slot.port r := by
          rw [Slot.port_addToPort, if_neg (fun h => here h.1)]
        rw [same]
        by_cases later : port + 1 ≤ r ∧ r < 8 ∧ r < port + 1 + min n stack.length
        · rw [if_pos later, if_pos (by omega), show r - port = r - (port + 1) + 1 by omega,
            List.getElem?_cons_succ]
        · rw [if_neg later, if_neg (by omega)]

theorem Moment.port_ready (s : Moment) (kind : UnitKind) {voice slot : Nat} (more : List UInt8)
    (hv : voice < maxVoices) (hs : slot < maxUnits) (w q r : Nat) :
    (s.ready kind voice slot more).port w q r =
      if voice = w ∧ slot = q ∧ r < kind.operandCount then 0.0 else s.port w q r := by
  unfold port ready
  rw [Machine.slot_adjustSlot]
  by_cases h : voice = w ∧ slot = q
  · obtain ⟨rfl, rfl⟩ := h
    simp [hv, hs]
  · rw [if_neg (fun h' => h ⟨h'.1, h'.2.1⟩), if_neg (fun h' => h ⟨h'.1, h'.2.1⟩)]

/-! ## Deliveries -/

/-- A send about to run: where it stands, and the voices, the place and the port it means. -/
structure Delivery where
  voice : Nat
  /-- The slot of its first opcode. The others follow, one for each voice. -/
  slot : Nat
  targets : List Nat
  place : Nat
  port : Nat
  channels : Nat
  /-- The operand that says how much of the signal is sent. -/
  amount : UInt8

namespace Delivery

/-- What is in a port when the opcodes of the send have emptied their own. -/
def base (d : Delivery) (s : Moment) (w q r : Nat) : Signal :=
  if w = d.voice ∧ d.slot ≤ q ∧ q < d.slot + d.targets.length ∧ r = 0 then 0.0 else s.port w q r

/-- The factor for the signal that the opcode of a number sends. -/
def factor (d : Delivery) (s : Moment) (number : Nat) : Signal :=
  Signal.bipolar (d.amount.toFloat32 / 128.0 + s.port d.voice (d.slot + number) 0)

/-- The signal has been added to the ports that the send means, and to no others. -/
structure Done (d : Delivery) (s s' : Moment) : Prop where
  arrives : ∀ number w c x, d.targets[number]? = some w → c < d.channels → d.port + c < 8 →
    s.stack[c]? = some x →
    s'.port w d.place (d.port + c) =
      d.base s w d.place (d.port + c) + x * d.factor s number
  others : ∀ w q r,
    ¬ (w ∈ d.targets ∧ q = d.place ∧ d.port ≤ r ∧ r < d.port + d.channels ∧ r < 8) →
    s'.port w q r = d.base s w q r

end Delivery

/-! ## One opcode -/

/-- What adding a signal to a place does to the ports of all units. -/
theorem Moment.port_sent (s : Moment) {voice slot : Nat} (more : List UInt8)
    (hv : voice < maxVoices) (hs : slot < maxUnits) {target place : Nat}
    (ht : target < maxVoices) (hp : place < maxUnits) (port channels : Nat)
    (enough : channels ≤ s.stack.length) (amount : UInt8) {stack : Stack} {scratch : List Signal} :
    Delivery.Done ⟨voice, slot, [target], place, port, channels, amount⟩ s
      { s.ready .send voice slot more with
        machine := (s.ready .send voice slot more).machine.adjustSlot target place
          (RunningUnit.deposit
            (Signal.bipolar (amount.toFloat32 / 128.0 + s.port voice slot 0)) channels port
            s.stack)
        stack, scratch } := by
  have emptied : ∀ w q r, (s.ready .send voice slot more).port w q r =
      Delivery.base ⟨voice, slot, [target], place, port, channels, amount⟩ s w q r := by
    intro w q r
    rw [s.port_ready .send more hv hs, Delivery.base]
    refine if_congr ?_ rfl rfl
    simp only [show UnitKind.send.operandCount = 1 from rfl, List.length_singleton]
    omega
  constructor
  · intro number w c x hw hc h8 hx
    obtain ⟨rfl, rfl⟩ : number = 0 ∧ target = w := by
      cases number with
      | zero => exact ⟨rfl, Option.some.inj hw⟩
      | succ number => cases hw
    dsimp only at hc h8 ⊢
    rw [← emptied, Moment.port, Machine.slot_adjustSlot, if_pos ⟨rfl, rfl, ht, hp⟩,
      RunningUnit.port_deposit, if_pos (by omega), Nat.add_sub_cancel_left, hx]
    rfl
  · intro w q r away
    rw [← emptied, Moment.port, Machine.slot_adjustSlot]
    split
    · rename_i here
      obtain ⟨rfl, rfl, -, -⟩ := here
      rw [RunningUnit.port_deposit, if_neg (by simp at away; omega)]
      rfl
    · rfl

theorem RunningUnit.send_run (u : RunningUnit) (s : Moment) :
    u.send.run s =
      if u.address.place = 0 ∨ maxVoices ≤ u.address.voice?.getD u.voice then
        .error (.invalidSendTarget u.address) s
      else
        .ok () { s with
          machine := s.machine.adjustSlot (u.address.voice?.getD u.voice) (u.address.place - 1)
            (deposit (Signal.bipolar (u.param 0)) u.channels u.address.port s.stack)
          stack := if u.address.pops then s.stack.drop u.channels else s.stack } := by
  unfold send
  rw [show (u.extra 0).toUInt16 ||| (u.extra 1).toUInt16 <<< 8 = u.address from rfl]
  by_cases h : u.address.place = 0 ∨ maxVoices ≤ u.address.voice?.getD u.voice
  · rw [if_pos h, if_pos h]
    rfl
  · rw [if_neg h, if_neg h]
    rfl

/-- The opcode of a send adds the signal to the place that its address names, unless it names
none. -/
theorem Program.send_ends (p : Program) {c : CompiledUnit} (hk : c.kind? = some .send)
    {amount : UInt8} {a : SendAddress} (hc : c.operands = amount :: Assembly.addressBytes a)
    {voice slot : Nat} (hv : voice < maxVoices) (hs : slot < maxUnits) {s : Moment}
    {more : List UInt8} (ho : s.operands = c.operands ++ more) :
    Ends (p.runUnit voice slot c.opcode) s
      (fun _ s' => c.channels ≤ s.stack.length ∧ a.place ≠ 0 ∧ a.voice?.getD voice < maxVoices ∧
        s'.operands = more ∧
        s'.stack = (if a.pops then s.stack.drop c.channels else s.stack) ∧
        Delivery.Done ⟨voice, slot, [a.voice?.getD voice], a.place - 1, a.port, c.channels, amount⟩
          s s')
      (fun e _ => (e = .stackUnderflow ∧ s.stack.length < c.channels) ∨
        (e = .nonFinite .send ∧ p.trap = true) ∨
        (e = .invalidSendTarget a ∧ (a.place = 0 ∨ maxVoices ≤ a.voice?.getD voice))) := by
  have hl : c.operands.length = UnitKind.send.width := by rw [hc]; rfl
  have need : stackNeed .send c.stereo = c.channels := by
    unfold CompiledUnit.channels
    cases c.stereo <;> rfl
  have address : (c.running .send s voice slot).address = a := by
    unfold RunningUnit.address RunningUnit.extra CompiledUnit.running
    rw [hc]
    exact SendAddress.of_bytes a
  unfold Ends
  rw [p.runUnit_framed hk hl hs voice ho, need]
  by_cases underflow : s.stack.length < c.channels
  · rw [if_pos underflow]
    exact .inl ⟨rfl, underflow⟩
  · rw [if_neg underflow]
    change Ends ((c.running .send s voice slot).send >>= fun _ => p.trapTop .send) _ _ _
    rw [Ends.bind_iff]
    unfold Ends
    rw [RunningUnit.send_run, address,
      show (c.running .send s voice slot).voice = voice from rfl]
    by_cases invalid : a.place = 0 ∨ maxVoices ≤ a.voice?.getD voice
    · rw [if_pos invalid]
      exact .inr (.inr ⟨rfl, invalid⟩)
    · rw [if_neg invalid]
      obtain ⟨hp, hw⟩ := not_or.mp invalid
      refine (p.trapTop_ends .send _).mono ?_ (fun e _ h => .inr (.inl h))
      rintro _ s' rfl
      refine ⟨by omega, hp, by omega, rfl, rfl, ?_⟩
      have factor : (c.running .send s voice slot).param 0 =
          amount.toFloat32 / 128.0 + s.port voice slot 0 := by
        unfold RunningUnit.param CompiledUnit.running
        rw [hc]
        rfl
      have channels : (c.running .send s voice slot).channels = c.channels := rfl
      rw [factor, channels]
      exact s.port_sent more hv hs (by omega) (by have := a.place_eq; unfold maxUnits; omega) a.port c.channels
        (by omega) amount

/-! ## All opcodes of a send -/

namespace Delivery

variable {voice slot place port channels : Nat} {amount : UInt8} {w : Nat} {rest : List Nat}
  {s s₁ s₂ : Moment}

/-- Ports that the first opcode does not reach are as empty after it as they should be. -/
theorem Done.base_later (first : Done ⟨voice, slot, [w], place, port, channels, amount⟩ s s₁)
    {v q r : Nat} (away : ¬ (v = w ∧ q = place ∧ port ≤ r ∧ r < port + channels ∧ r < 8)) :
    base ⟨voice, slot + 1, rest, place, port, channels, amount⟩ s₁ v q r =
      base ⟨voice, slot, w :: rest, place, port, channels, amount⟩ s v q r := by
  have same := first.others v q r (by simpa using away)
  unfold base at same ⊢
  simp only [List.length_cons, List.length_nil] at same ⊢
  by_cases own : v = voice ∧ slot ≤ q ∧ q < slot + (rest.length + 1) ∧ r = 0
  · rw [if_pos own]
    by_cases here : q = slot
    · rw [if_neg (by omega), same, if_pos (by omega)]
    · rw [if_pos (by omega)]
  · rw [if_neg own, if_neg (by omega), same, if_neg (by omega)]

/-- A send to several voices is done when its first opcode and all later ones are, if none of
these voices is the one that sends. -/
theorem Done.cons (first : Done ⟨voice, slot, [w], place, port, channels, amount⟩ s s₁)
    (later : Done ⟨voice, slot + 1, rest, place, port, channels, amount⟩ s₁ s₂)
    (stack : rest ≠ [] → s₁.stack = s.stack) (fresh : w ∉ rest)
    (elsewhere : rest = [] ∨ w ≠ voice ∧ voice ∉ rest) :
    Done ⟨voice, slot, w :: rest, place, port, channels, amount⟩ s s₂ := by
  constructor
  · intro number v c x hv hc h8 hx
    dsimp only at hc h8 ⊢
    cases number with
    | zero =>
      obtain rfl : w = v := Option.some.inj hv
      have arrived := first.arrives 0 w c x rfl hc h8 hx
      have kept := later.others w place (port + c) (fun h => fresh h.1)
      have own : ∀ n, ¬ (w = voice ∧ slot + 1 ≤ place ∧ place < slot + 1 + rest.length ∧
          n = 0) := by
        rintro n ⟨rfl, hlo, hhi, -⟩
        rcases elsewhere with rfl | ⟨h, -⟩
        · simp at hhi
          omega
        · exact h rfl
      have same : base ⟨voice, slot, [w], place, port, channels, amount⟩ s w place (port + c) =
          base ⟨voice, slot, w :: rest, place, port, channels, amount⟩ s w place (port + c) := by
        have other := own (port + c)
        unfold base
        refine if_congr ?_ rfl rfl
        simp only [List.length_cons, List.length_nil]
        omega
      rw [kept, base, if_neg (own _), arrived, same]
      rfl
    | succ number =>
      have hv' : rest[number]? = some v := hv
      have mem : v ∈ rest := List.mem_of_getElem? hv'
      have several : rest ≠ [] := List.ne_nil_of_mem mem
      obtain ⟨hw, hvoice⟩ := elsewhere.resolve_left several
      have arrived := later.arrives number v c x hv' hc h8 (by rw [stack several]; exact hx)
      have away : v ≠ w := fun h => fresh (h ▸ mem)
      have unread := first.others voice (slot + 1 + number) 0
        (fun h => hw (List.mem_singleton.mp h.1).symm)
      have passed : ¬ slot + 1 + number < slot + [w].length := by
        rw [List.length_singleton]
        omega
      rw [base, if_neg (fun h => passed h.2.2.1)] at unread
      have same : factor ⟨voice, slot + 1, rest, place, port, channels, amount⟩ s₁ number =
          factor ⟨voice, slot, w :: rest, place, port, channels, amount⟩ s (number + 1) := by
        unfold factor
        dsimp only
        rw [unread, Nat.add_assoc, Nat.add_comm 1 number]
      rw [arrived, first.base_later (fun h => away h.1), same]
  · intro v q r away
    have away_first : ¬ (v = w ∧ q = place ∧ port ≤ r ∧ r < port + channels ∧ r < 8) :=
      fun h => away ⟨h.1 ▸ List.mem_cons_self, h.2⟩
    rw [later.others v q r (fun h => away ⟨List.mem_cons_of_mem _ h.1, h.2⟩),
      first.base_later away_first]

end Delivery

/-- The opcodes of a send, one for each of some addresses. -/
def sendCode (opcode amount : UInt8) (addresses : List SendAddress) : CodeBlock :=
  addresses.map fun a => ⟨opcode, amount :: Assembly.addressBytes a⟩

/-- An address means a place in a voice, unless it is lost and means no unit. -/
def Aims (voice place port pop : Nat) (lost : Nat → Prop) (w : Nat) (a : SendAddress) : Prop :=
  lost w ∧ a.place = 0 ∨
    ¬ lost w ∧ a.voice?.getD voice = w ∧ a.place = place + 1 ∧ a.port = port ∧
      (a.pops = true ↔ pop = 1)

/-- Addresses mean a place in each of some voices, and the last one may take the signal off the
stack. -/
inductive AllAim (voice place port pop : Nat) (lost : Nat → Prop) :
    List Nat → List SendAddress → Prop
  | last {w : Nat} {a : SendAddress} (aim : Aims voice place port pop lost w a) :
    AllAim voice place port pop lost [w] [a]
  | more {w : Nat} {a : SendAddress} {targets : List Nat} {addresses : List SendAddress}
    (aim : Aims voice place port 0 lost w a)
    (rest : AllAim voice place port pop lost targets addresses) :
    AllAim voice place port pop lost (w :: targets) (a :: addresses)

theorem AllAim.ne_nil {voice place port pop : Nat} {lost : Nat → Prop} {targets : List Nat}
    {addresses : List SendAddress} (h : AllAim voice place port pop lost targets addresses) :
    targets ≠ [] := by
  cases h <;> simp

theorem AllAim.length_eq {voice place port pop : Nat} {lost : Nat → Prop} {targets : List Nat}
    {addresses : List SendAddress} (h : AllAim voice place port pop lost targets addresses) :
    targets.length = addresses.length := by
  induction h with
  | last _ => rfl
  | more _ _ ih => rw [List.length_cons, List.length_cons, ih]

section SendCode

variable (p : Program) {opcode amount : UInt8} {voice place port : Nat} {lost : Nat → Prop}
  {more : List UInt8}

/-- An opcode of a send delivers the signal or finds its address lost. -/
theorem sendOpcode_ends (hk : CompiledUnit.kindOf? opcode = some .send) {pop slot w : Nat}
    {a : SendAddress} (aim : Aims voice place port pop lost w a) (hw : w < maxVoices)
    (hv : voice < maxVoices) (hs : slot < maxUnits) {s : Moment}
    (ho : s.operands = amount :: Assembly.addressBytes a ++ more) :
    Ends (p.runUnit voice slot opcode) s
      (fun _ s' => (CompiledUnit.mk opcode []).channels ≤ s.stack.length ∧ ¬ lost w ∧
        s'.operands = more ∧
        s'.stack = (if pop = 1 then s.stack.drop (CompiledUnit.mk opcode []).channels
          else s.stack) ∧
        Delivery.Done ⟨voice, slot, [w], place, port, (CompiledUnit.mk opcode []).channels,
          amount⟩ s s')
      (fun e _ =>
        (e = .stackUnderflow ∧ s.stack.length < (CompiledUnit.mk opcode []).channels) ∨
        (e = .nonFinite .send ∧ p.trap = true) ∨
        ((∃ a, e = .invalidSendTarget a) ∧ lost w)) := by
  have run := p.send_ends (c := ⟨opcode, amount :: Assembly.addressBytes a⟩) hk rfl hv hs ho
  refine run.mono ?_ ?_
  · rintro _ s' ⟨enough, hp, -, operands, stack, done⟩
    obtain ⟨-, none⟩ | ⟨found, rfl, hplace, rfl, hpop⟩ := aim
    · exact absurd none hp
    · refine ⟨enough, found, operands, ?_, ?_⟩
      · rw [stack]
        exact if_congr hpop rfl rfl
      · rw [hplace, Nat.add_sub_cancel] at done
        exact done
  · rintro e s' (h | h | ⟨rfl, invalid⟩)
    · exact .inl h
    · exact .inr (.inl h)
    · refine .inr (.inr ⟨⟨a, rfl⟩, ?_⟩)
      obtain ⟨gone, -⟩ | ⟨-, rfl, hplace, -⟩ := aim
      · exact gone
      · omega

/-- The opcodes of a send together deliver the signal to every voice that the send means,
unless an address among them is lost. -/
theorem sendCode_ends (hk : CompiledUnit.kindOf? opcode = some .send) {pop slot : Nat}
    {targets : List Nat} {addresses : List SendAddress}
    (aim : AllAim voice place port pop lost targets addresses)
    (inside : ∀ w ∈ targets, w < maxVoices) (nodup : targets.Nodup)
    (elsewhere : targets.length ≤ 1 ∨ voice ∉ targets) (hv : voice < maxVoices)
    (hs : slot + targets.length ≤ maxUnits) {s : Moment}
    (ho : s.operands = (sendCode opcode amount addresses).operands ++ more) :
    Ends (p.runOpcodes voice slot (sendCode opcode amount addresses).opcodes) s
      (fun _ s' => (CompiledUnit.mk opcode []).channels ≤ s.stack.length ∧
        (∀ w ∈ targets, ¬ lost w) ∧ s'.operands = more ∧
        s'.stack = (if pop = 1 then s.stack.drop (CompiledUnit.mk opcode []).channels
          else s.stack) ∧
        Delivery.Done ⟨voice, slot, targets, place, port, (CompiledUnit.mk opcode []).channels,
          amount⟩ s s')
      (fun e _ =>
        (e = .stackUnderflow ∧ s.stack.length < (CompiledUnit.mk opcode []).channels) ∨
        (e = .nonFinite .send ∧ p.trap = true) ∨
        ((∃ a, e = .invalidSendTarget a) ∧ ∃ w ∈ targets, lost w)) := by
  induction aim generalizing slot s with
  | @last w a aim =>
    have ho' : s.operands = amount :: Assembly.addressBytes a ++ more := by
      simpa [sendCode, CodeBlock.operands] using ho
    have run := sendOpcode_ends p hk aim (inside w List.mem_cons_self) hv (show slot < maxUnits by
      rw [List.length_singleton] at hs; omega) ho'
    rw [sendCode, List.map_singleton, CodeBlock.opcodes_cons, Program.runOpcodes, Ends.bind_iff]
    refine run.mono ?_ ?_
    · rintro _ s' ⟨enough, found, operands, stack, done⟩
      exact ⟨enough, by simpa using found, operands, stack, done⟩
    · rintro e s' (h | h | ⟨h, gone⟩)
      · exact .inl h
      · exact .inr (.inl h)
      · exact .inr (.inr ⟨h, w, List.mem_cons_self, gone⟩)
  | @more w a targets addresses aim rest ih =>
    have ho' : s.operands = amount :: Assembly.addressBytes a ++
        ((sendCode opcode amount addresses).operands ++ more) := by
      simpa [sendCode] using ho
    obtain ⟨fresh, nodup'⟩ := List.nodup_cons.mp nodup
    have several : voice ∉ w :: targets := by
      refine elsewhere.resolve_left fun h => ?_
      have := List.length_pos_iff.mpr rest.ne_nil
      rw [List.length_cons] at h
      omega
    obtain ⟨hw, hvoice⟩ := not_or.mp (fun h => several (List.mem_cons.mpr h))
    rw [List.length_cons] at hs
    have run := sendOpcode_ends p hk aim (inside w List.mem_cons_self) hv (show slot < maxUnits by omega) ho'
    rw [sendCode, List.map_cons, ← sendCode, CodeBlock.opcodes_cons, Program.runOpcodes,
      Ends.bind_iff]
    refine run.mono ?_ ?_
    · rintro _ s₁ ⟨enough, found, operands, stack, done⟩
      rw [if_neg (by decide)] at stack
      have later := ih (fun v h => inside v (List.mem_cons_of_mem _ h)) nodup' (.inr hvoice)
        (show slot + 1 + targets.length ≤ maxUnits by omega) operands
      rw [stack] at later
      refine later.mono ?_ ?_
      · rintro _ s₂ ⟨-, found', operands', stack', done'⟩
        refine ⟨enough, ?_, operands', stack', done.cons done' (fun _ => stack) fresh
          (.inr ⟨Ne.symm hw, hvoice⟩)⟩
        intro v hv'
        rcases List.mem_cons.mp hv' with rfl | hv'
        · exact found
        · exact found' v hv'
      · rintro e s' (h | h | ⟨h, v, hv', gone⟩)
        · exact .inl h
        · exact .inr (.inl h)
        · exact .inr (.inr ⟨h, v, List.mem_cons_of_mem _ hv', gone⟩)
    · rintro e s' (h | h | ⟨h, gone⟩)
      · exact .inl h
      · exact .inr (.inl h)
      · exact .inr (.inr ⟨h, w, List.mem_cons_self, gone⟩)

end SendCode

end ModularSynth
