-- Running compiled code. A framed unit runs with exactly its own operands, and leaves the
-- operands of the units after it; so a block of code runs unit by unit.
import ModularSynth.Proofs.UnitRuns
import ModularSynth.Proofs.CompiledCode

namespace ModularSynth

/-! ## One unit -/

/-- A compiled unit about to run in a slot of a voice. -/
def CompiledUnit.running (c : CompiledUnit) (kind : UnitKind) (s : Moment) (voice slot : Nat) :
    RunningUnit where
  kind
  stereo := c.stereo
  voice
  slot
  note := (s.machine.voice voice).note
  held := (s.machine.voice voice).sustain
  leading := c.operands.take kind.operandCount
  params := Program.params (s.machine.slot voice slot) (c.operands.take kind.operandCount) ++
    s.scratch.drop kind.operandCount
  extras := c.operands.drop kind.operandCount

/-- The moment in which a unit begins to run, apart from its parameters: its ports are empty,
and the operands to come are those of the units after it. -/
def Moment.ready (s : Moment) (kind : UnitKind) (voice slot : Nat) (more : List UInt8) : Moment :=
  { s with
    machine := s.machine.adjustSlot voice slot (·.clearPorts kind.operandCount)
    operands := more }

namespace Program

theorem splitExactly_append {α : Type} (xs more : List α) :
    splitExactly xs.length (xs ++ more) = some (xs, more) := by
  induction xs with
  | nil => rfl
  | cons x xs ih => simp [splitExactly, ih]

theorem takeOperands_run {n : Nat} {taken more : List UInt8} {s : Moment}
    (hn : taken.length = n) (ho : s.operands = taken ++ more) :
    (takeOperands n).run s = .ok taken { s with operands := more } := by
  subst hn
  obtain ⟨machine, stack, operands, line, time, scratch⟩ := s
  simp only at ho
  subst ho
  simp only [takeOperands, EStateM.run_bind, EStateM.run_get, splitExactly_append]
  rfl

/-- A framed unit underflows the stack or is made ready with its own operands. -/
theorem prepare_framed {c : CompiledUnit} {kind : UnitKind} (hk : c.kind? = some kind)
    (hl : c.operands.length = kind.width) {slot : Nat} (hs : slot < maxUnits) (voice : Nat)
    {s : Moment} {more : List UInt8} (ho : s.operands = c.operands ++ more) :
    (prepare voice slot c.opcode).run s =
      if s.stack.length < stackNeed kind c.stereo then .error .stackUnderflow s
      else .ok (c.running kind s voice slot)
        { s.ready kind voice slot more with scratch := (c.running kind s voice slot).params } := by
  have hk' : UnitKind.ofOpcode? (c.opcode >>> 1).toNat = some kind := hk
  have first : (takeOperands kind.operandCount).run s = .ok (c.operands.take kind.operandCount)
      { s with operands := c.operands.drop kind.operandCount ++ more } :=
    takeOperands_run (by rw [List.length_take, hl, UnitKind.width]; omega)
      (by rw [ho, ← List.append_assoc, List.take_append_drop])
  have second : ∀ m scratch, (takeOperands kind.extraOperandCount).run
      { s with machine := m, operands := c.operands.drop kind.operandCount ++ more, scratch } =
      .ok (c.operands.drop kind.operandCount) { s with machine := m, operands := more, scratch } :=
    fun m scratch => takeOperands_run (by rw [List.length_drop, hl, UnitKind.width]; omega) rfl
  unfold prepare
  simp only [hk', Nat.not_le.mpr hs, if_false, EStateM.run_bind, EStateM.run_get]
  by_cases hu : s.stack.length < stackNeed kind (c.opcode % 2 == 1)
  · have hu' : s.stack.length < stackNeed kind c.stereo := hu
    simp only [hu, hu', if_true]
    rfl
  · have hu' : ¬ s.stack.length < stackNeed kind c.stereo := hu
    simp only [hu, hu', if_false, EStateM.run_bind, EStateM.run_get, EStateM.run_modify, first,
      second]
    rfl

/-- A framed unit underflows the stack or runs with its own operands. -/
theorem runUnit_framed (p : Program) {c : CompiledUnit} {kind : UnitKind}
    (hk : c.kind? = some kind) (hl : c.operands.length = kind.width) {slot : Nat}
    (hs : slot < maxUnits) (voice : Nat) {s : Moment} {more : List UInt8}
    (ho : s.operands = c.operands ++ more) :
    (p.runUnit voice slot c.opcode).run s =
      if s.stack.length < stackNeed kind c.stereo then .error .stackUnderflow s
      else ((c.running kind s voice slot).run p >>= fun _ => p.trapTop kind).run
        { s.ready kind voice slot more with scratch := (c.running kind s voice slot).params } := by
  rw [p.runUnit_eq, EStateM.run_bind, prepare_framed hk hl hs voice ho]
  by_cases underflow : s.stack.length < stackNeed kind c.stereo
  · simp only [underflow, if_true]
  · simp only [underflow, if_false]
    rfl

end Program

/-- The unit is one of this code. -/
structure RunningUnit.Runs (u : RunningUnit) (c : CompiledUnit) : Prop where
  kind : c.kind? = some u.kind
  stereo : u.stereo = c.stereo
  leading : u.leading = c.operands.take u.kind.operandCount
  extras : u.extras = c.operands.drop u.kind.operandCount

/-- The faults that code can run into in some moment. -/
def CompiledUnit.CanRaise (c : CompiledUnit) (p : Program) (e : RenderFault) : Prop :=
  e = .stackUnderflow ∨ (∃ kind, e = .nonFinite kind) ∨
    ∃ u : RunningUnit, u.Runs c ∧ u.CanFail p e

namespace Program

theorem trapTop_ends (p : Program) (kind : UnitKind) (s : Moment) :
    Ends (p.trapTop kind) s (fun _ s' => s' = s)
      (fun e _ => e = .nonFinite kind ∧ p.trap = true) := by
  unfold trapTop
  simp only [Ends.bind_iff, Ends.get_iff]
  split
  · rename_i trap _
    split
    · rfl
    · exact ⟨rfl, trap⟩
  · rfl

/-- A framed unit takes its operands and no more, and fails only in its own ways. -/
theorem runUnit_ends (p : Program) {c : CompiledUnit} (framed : c.Framed) {slot : Nat}
    (hs : slot < maxUnits) (voice : Nat) {s : Moment} {more : List UInt8}
    (ho : s.operands = c.operands ++ more) :
    Ends (p.runUnit voice slot c.opcode) s (fun _ s' => s'.operands = more)
      (fun e _ => c.CanRaise p e) := by
  obtain ⟨kind, hk, hl⟩ := framed
  unfold Ends
  rw [p.runUnit_framed hk hl hs voice ho]
  by_cases underflow : s.stack.length < stackNeed kind c.stereo
  · rw [if_pos underflow]
    exact .inl rfl
  · rw [if_neg underflow]
    have run := (c.running kind s voice slot).run_ends p
      { s.ready kind voice slot more with scratch := (c.running kind s voice slot).params }
    change Ends _ _ _ _
    rw [Ends.bind_iff]
    refine run.mono (fun _ s' steady => ?_) (fun e s' h => .inr (.inr ⟨_, ⟨hk, rfl, rfl, rfl⟩, h.2⟩))
    refine (p.trapTop_ends kind s').mono (fun _ s'' h => ?_) (fun e s'' h => .inr (.inl ⟨kind, h.1⟩))
    rw [h, steady.operands]
    rfl

/-! ## Blocks -/

/-- Run opcodes as units of a voice, from a slot on. -/
def runOpcodes (p : Program) (voice : Nat) : (slot : Nat) → List UInt8 → Exec Unit
  | _, [] => pure ()
  | slot, op :: rest => do
    p.runUnit voice slot op
    runOpcodes p voice (slot + 1) rest

/-- Up to the end of an instrument, the opcodes of a stream run one by one. -/
theorem runUnits_block (p : Program) (voice slot : Nat) {ops : List UInt8}
    (h : ∀ op ∈ ops, op >>> 1 ≠ 0) (rest : List UInt8) (s : Moment) :
    (p.runUnits voice slot (ops ++ 0 :: rest)).run s =
      (p.runOpcodes voice slot ops >>= fun _ => pure rest).run s := by
  induction ops generalizing slot s with
  | nil => rfl
  | cons op ops ih =>
    have here := h op List.mem_cons_self
    rw [List.cons_append, runUnits, runOpcodes]
    simp only [here, if_false, EStateM.run_bind]
    cases (p.runUnit voice slot op).run s with
    | error e s' => rfl
    | ok _ s' =>
      have later := ih (slot + 1) (fun op h' => h op (List.mem_cons_of_mem _ h')) s'
      rw [EStateM.run_bind] at later
      exact later

/-- A framed block takes its operands and no more, and fails only in ways of its units. -/
theorem runOpcodes_ends (p : Program) {block : CodeBlock} (framed : block.Framed)
    (voice slot : Nat) (hs : slot + block.length ≤ maxUnits) {s : Moment} {more : List UInt8}
    (ho : s.operands = block.operands ++ more) :
    Ends (p.runOpcodes voice slot block.opcodes) s (fun _ s' => s'.operands = more)
      (fun e _ => ∃ c ∈ block, c.CanRaise p e) := by
  induction block generalizing slot s with
  | nil => exact ho
  | cons c block ih =>
    rw [CodeBlock.opcodes_cons, runOpcodes, Ends.bind_iff]
    rw [CodeBlock.operands_cons, List.append_assoc] at ho
    rw [List.length_cons] at hs
    refine (p.runUnit_ends (framed c List.mem_cons_self) (by omega) voice ho).mono
      (fun _ s' h => ?_) (fun e _ h => ⟨c, List.mem_cons_self, h⟩)
    refine (ih (fun c' h' => framed c' (List.mem_cons_of_mem _ h')) (slot + 1) (by omega) h).mono
      (fun _ s'' h => h) (fun e _ ⟨c', hc', h⟩ => ⟨c', List.mem_cons_of_mem _ hc', h⟩)

end Program

end ModularSynth
