-- The units of a frame, one turn after the other. What is true of every turn of a unit adds up over
-- a frame, whatever bytecode runs. In framed code the turns can be told from the bytecode alone: a
-- frame gives every unit of every voice its turn, in order, until one of them fails.
import ModularSynth.Proofs.FrameRuns
import ModularSynth.Proofs.VoiceSchedule

namespace ModularSynth

/-! ## Turns -/

/-- A unit of compiled code in a slot of a voice. -/
structure Site where
  voice : Nat
  slot : Nat
  code : CompiledUnit
  deriving DecidableEq, Repr

/-- A unit whose turn has come: its opcode byte, and the moment in which it is ready to run. -/
structure Turn where
  opcode : UInt8
  unit : RunningUnit
  moment : Moment

/-- Where in the code a unit stands that has its turn. -/
def Turn.site (t : Turn) : Site :=
  ⟨t.unit.voice, t.unit.slot, t.opcode, t.unit.leading ++ t.unit.extras⟩

namespace Program

/-- The turns of the units of a voice, from one on. The last may be that of a unit that fails. -/
def turnsOfVoice (p : Program) (voice slot : Nat) : List UInt8 → Moment → List Turn
  | [], _ => []
  | op :: rest, s =>
    if op >>> 1 = 0 then []
    else
      match (prepare voice slot op).run s with
      | .error _ _ => []
      | .ok u t =>
        ⟨op, u, t⟩ :: match (p.perform u).run t with
          | .error _ _ => []
          | .ok _ s' => turnsOfVoice p voice (slot + 1) rest s'

/-- The turns of the units of voices, from one on, of which there are so many left. -/
def turnsOfVoices (p : Program) : (left voice : Nat) → List UInt8 → Moment → List Turn
  | 0, _, _, _ => []
  | left + 1, voice, opcodes, s =>
    p.turnsOfVoice voice 0 opcodes s ++ match (p.runUnits voice 0 opcodes).run s with
      | .error _ _ => []
      | .ok rest s' =>
        if p.repeats left then
          turnsOfVoices p left (voice + 1) opcodes { s' with operands := s.operands }
        else turnsOfVoices p left (voice + 1) rest s'

/-- The turns of the units in a frame. -/
def turns (p : Program) (s : Moment) : List Turn :=
  p.turnsOfVoices p.bytecode.voices 0 p.bytecode.opcodes s

end Program

/-! ## What adds up -/

/-- The unit is the one of its opcode, and finds the signals that it needs. -/
structure Turn.Ready (t : Turn) : Prop where
  runs : t.unit.Runs t.site.code
  enough : Program.stackNeed t.unit.kind t.unit.stereo ≤ t.moment.stack.length

/-- What is known of some turns and of the moments before and after them, and what is known where a
fault has cut them off. Both add up from turn to turn. -/
structure AddsUp (p : Program) (done cut : List Turn → Moment → Moment → Prop) : Prop where
  idle : Lasting (done [])
  append : ∀ {ts us a b c}, done ts a b → done us b c → done (ts ++ us) a c
  stop : ∀ {ts a b}, done ts a b → cut ts a b
  fail : ∀ {ts us a b c}, done ts a b → cut us b c → cut (ts ++ us) a c
  turn : ∀ t : Turn, t.Ready →
    Ends (t.unit.run p) t.moment (fun _ s => done [t] t.moment s) (fun _ s => cut [t] t.moment s)

namespace Program

variable (p : Program)

/-- An opcode byte makes a unit ready for its turn. -/
theorem prepare_ready (voice slot : Nat) (op : UInt8) (s : Moment) :
    Ends (prepare voice slot op) s (fun u t => Turn.Ready ⟨op, u, t⟩) (fun _ _ => True) := by
  apply (prepare_ends voice slot op s).mono
  · rintro u t ⟨-, -, kind, stereo, leading, -, enough⟩
    refine ⟨⟨kind, stereo, ?_, ?_⟩, enough⟩
    · exact (List.take_left' leading).symm
    · exact (List.drop_left' leading).symm
  · intro _ _ _
    trivial

section AddsUp

variable {p} {done cut : List Turn → Moment → Moment → Prop} (h : AddsUp p done cut)
include h

theorem perform_addsUp {t : Turn} (ready : t.Ready) :
    Ends (p.perform t.unit) t.moment (fun _ s => done [t] t.moment s)
      (fun _ s => cut [t] t.moment s) := by
  unfold perform
  rw [Ends.bind_iff]
  apply (h.turn t ready).mono
  · intro _ s ran
    apply (trapTop_preserves h.idle p t.unit.kind s).mono
    · intro _ s' checked
      exact h.append ran checked
    · intro _ s' trapped
      exact h.fail ran (h.stop trapped)
  · intro _ _ failed
    exact failed

theorem runUnits_addsUp (voice slot : Nat) (ops : List UInt8) (s : Moment) :
    Ends (p.runUnits voice slot ops) s (fun _ s' => done (p.turnsOfVoice voice slot ops s) s s')
      (fun _ s' => cut (p.turnsOfVoice voice slot ops s) s s') := by
  induction ops generalizing slot s with
  | nil => exact h.stop (h.idle.refl s)
  | cons op rest ih =>
    unfold runUnits turnsOfVoice
    by_cases last : op >>> 1 = 0
    · rw [if_pos last, if_pos last]
      exact h.idle.refl s
    · rw [if_neg last, if_neg last, p.runUnit_eq, bind_assoc, Ends.bind_iff]
      have ready := (prepare_ready voice slot op s).and (prepare_preserves h.idle voice slot op s)
      unfold Ends at ready ⊢
      cases prepared : (prepare voice slot op).run s with
      | error e t =>
        rw [prepared] at ready
        exact h.stop ready.2
      | ok u t =>
        rw [prepared] at ready
        have turn := perform_addsUp h ready.1
        simp only [EStateM.run_bind]
        unfold Ends at turn
        cases performed : (p.perform u).run t with
        | error e s' =>
          simp only [performed] at turn ⊢
          exact h.fail ready.2 turn
        | ok _ s' =>
          simp only [performed] at turn ⊢
          apply (ih (slot + 1) s').mono
          · intro _ s'' later
            exact h.append ready.2 (h.append turn later)
          · intro _ s'' later
            exact h.fail ready.2 (h.fail turn later)

theorem runVoices_addsUp (left voice : Nat) (ops : List UInt8) (s : Moment) :
    Ends (p.runVoices left voice ops) s (fun _ s' => done (p.turnsOfVoices left voice ops s) s s')
      (fun _ s' => cut (p.turnsOfVoices left voice ops s) s s') := by
  induction left generalizing voice ops s with
  | zero => exact h.idle.refl s
  | succ left ih =>
    unfold runVoices turnsOfVoices
    simp only [Ends.bind_iff, Ends.get_iff]
    have units := runUnits_addsUp h voice 0 ops s
    unfold Ends at units ⊢
    cases ran : (p.runUnits voice 0 ops).run s with
    | error e s' =>
      rw [ran] at units
      rw [List.append_nil]
      exact units
    | ok rest s' =>
      rw [ran] at units
      cases p.repeats left with
      | true =>
        have back := h.append units (h.idle.operands s' s.operands)
        rw [List.append_nil] at back
        apply (ih (voice + 1) ops { s' with operands := s.operands }).mono
        · intro _ _ later
          exact h.append back later
        · intro _ _ later
          exact h.fail back later
      | false =>
        apply (ih (voice + 1) rest s').mono
        · intro _ _ later
          exact h.append units later
        · intro _ _ later
          exact h.fail units later

/-- What adds up from turn to turn is known of a frame. -/
theorem runFrame_addsUp (s : Moment) :
    Ends p.runFrame s (fun _ s' => done (p.turns s) s s') (fun _ s' => cut (p.turns s) s s') := by
  unfold runFrame
  rw [Ends.bind_iff]
  apply (runVoices_addsUp h p.bytecode.voices 0 p.bytecode.opcodes s).mono
  · intro _ s' whole
    simp only [Ends.bind_iff, Ends.get_iff]
    split
    · exact h.stop whole
    · split
      · exact h.stop whole
      · exact whole
  · intro _ _ failed
    exact failed

end AddsUp

theorem ready_addsUp : AddsUp p (fun ts _ _ => ∀ t ∈ ts, t.Ready) (fun ts _ _ => ∀ t ∈ ts, t.Ready)
    where
  idle := ⟨fun _ => List.forall_mem_nil _, fun _ _ => List.forall_mem_nil _,
    fun _ _ => List.forall_mem_nil _, fun _ _ _ _ _ => List.forall_mem_nil _⟩
  append first later := List.forall_mem_append.mpr ⟨first, later⟩
  stop first := first
  fail first later := List.forall_mem_append.mpr ⟨first, later⟩
  turn t ready := by
    have only : ∀ t' ∈ [t], t'.Ready := List.forall_mem_singleton.mpr ready
    unfold Ends
    split
    · exact only
    · exact only

/-- Whoever has a turn in a frame is the unit of its opcode. -/
theorem turns_ready {s : Moment} {t : Turn} (ht : t ∈ p.turns s) : t.Ready := by
  have all := runFrame_addsUp p.ready_addsUp s
  unfold Ends at all
  split at all
  · exact all t ht
  · exact all t ht

end Program

/-! ## What holds at every turn -/

/-- What is kept from turn to turn: by making units ready, and by performing them. -/
structure KeptByTurns (p : Program) (I : Moment → Prop) : Prop where
  lasting : Lasting fun s s' => I s → I s'
  perform : ∀ u s, I s → Ends (p.perform u) s (fun _ s' => I s') fun _ _ => True

namespace Program

variable {p : Program} {I : Moment → Prop} (h : KeptByTurns p I)
include h

theorem turnsOfVoice_keep (voice slot : Nat) (ops : List UInt8) {s : Moment} (here : I s) :
    (∀ t ∈ p.turnsOfVoice voice slot ops s, I t.moment) ∧
      Ends (p.runUnits voice slot ops) s (fun _ s' => I s') fun _ _ => True := by
  induction ops generalizing slot s with
  | nil => exact ⟨List.forall_mem_nil _, trivial⟩
  | cons op rest ih =>
    unfold runUnits turnsOfVoice
    by_cases last : op >>> 1 = 0
    · rw [if_pos last, if_pos last]
      exact ⟨List.forall_mem_nil _, here⟩
    · rw [if_neg last, if_neg last, p.runUnit_eq, bind_assoc]
      have ready := prepare_preserves h.lasting voice slot op s
      unfold Ends at ready ⊢
      simp only [EStateM.run_bind]
      cases prepared : (prepare voice slot op).run s with
      | error e t => exact ⟨List.forall_mem_nil _, trivial⟩
      | ok u t =>
        rw [prepared] at ready
        have stands : I t := ready here
        have performed := h.perform u t stands
        unfold Ends at performed
        cases ran : (p.perform u).run t with
        | error e s' =>
          simp only [ran]
          exact ⟨List.forall_mem_cons.mpr ⟨stands, List.forall_mem_nil _⟩, trivial⟩
        | ok _ s' =>
          rw [ran] at performed
          obtain ⟨turns, after⟩ := ih (slot + 1) performed
          simp only [ran]
          exact ⟨List.forall_mem_cons.mpr ⟨stands, turns⟩, after⟩

theorem turnsOfVoices_keep (left voice : Nat) (ops : List UInt8) {s : Moment} (here : I s) :
    (∀ t ∈ p.turnsOfVoices left voice ops s, I t.moment) ∧
      Ends (p.runVoices left voice ops) s (fun _ s' => I s') fun _ _ => True := by
  induction left generalizing voice ops s with
  | zero => exact ⟨List.forall_mem_nil _, here⟩
  | succ left ih =>
    obtain ⟨turns, after⟩ := turnsOfVoice_keep h voice 0 ops here
    unfold runVoices turnsOfVoices
    simp only [Ends.bind_iff, Ends.get_iff]
    unfold Ends at after ⊢
    cases ran : (p.runUnits voice 0 ops).run s with
    | error e s' => exact ⟨List.forall_mem_append.mpr ⟨turns, List.forall_mem_nil _⟩, trivial⟩
    | ok rest s' =>
      rw [ran] at after
      cases p.repeats left with
      | true =>
        obtain ⟨later, ends⟩ := ih (voice + 1) ops (h.lasting.operands s' s.operands after)
        exact ⟨List.forall_mem_append.mpr ⟨turns, later⟩, ends⟩
      | false =>
        obtain ⟨later, ends⟩ := ih (voice + 1) rest after
        exact ⟨List.forall_mem_append.mpr ⟨turns, later⟩, ends⟩

/-- What turns keep holds at each turn of a frame, and at its end. -/
theorem turns_keep {s : Moment} (here : I s) :
    (∀ t ∈ p.turns s, I t.moment) ∧ Ends p.runFrame s (fun _ s' => I s') fun _ _ => True := by
  obtain ⟨turns, ends⟩ := turnsOfVoices_keep h p.bytecode.voices 0 p.bytecode.opcodes here
  refine ⟨turns, ?_⟩
  unfold runFrame
  rw [Ends.bind_iff]
  apply ends.mono
  · intro _ s' kept
    simp only [Ends.bind_iff, Ends.get_iff]
    split
    · trivial
    · split
      · trivial
      · exact kept
  · intro _ _ _
    trivial

end Program

/-! ## The turns that a bytecode gives -/

/-- The units of a block, in the slots of a voice from one on. -/
def CodeBlock.sites (block : CodeBlock) (voice slot : Nat) : List Site :=
  (block.zipIdx slot).map fun (code, slot) => ⟨voice, slot, code⟩

namespace Bytecode

/-- The units of so many voices, from a voice and the block that it plays on. -/
def sitesFrom (b : Bytecode) (left voice block : Nat) : List Site :=
  ((b.blockNumbers left block).zipIdx voice).flatMap fun (i, voice) =>
    CodeBlock.sites (b.blocks[i]?.getD []) voice 0

/-- The units of all voices in the order of their turns. -/
def sites (b : Bytecode) : List Site :=
  b.sitesFrom b.voices 0 0

theorem sitesFrom_succ (b : Bytecode) (left voice block : Nat) :
    b.sitesFrom (left + 1) voice block = CodeBlock.sites (b.blocks[block]?.getD []) voice 0 ++
      b.sitesFrom left (voice + 1) (if b.shares left then block else block + 1) := by
  unfold sitesFrom
  rw [blockNumbers, List.zipIdx_cons, List.flatMap_cons]

/-- No two sites of a bytecode are in the same slot of the same voice. -/
theorem sites_apart (b : Bytecode) :
    b.sites.Pairwise fun s s' => s.voice ≠ s'.voice ∨ s.slot ≠ s'.slot := by
  have numbers : ∀ {α : Type} (xs : List α) (first : Nat),
      (xs.zipIdx first).Pairwise fun x y => x.2 ≠ y.2 := by
    intro α xs first
    rw [← List.pairwise_map (f := Prod.snd) (R := (· ≠ ·)), List.zipIdx_map_snd]
    exact List.nodup_range'
  unfold sites sitesFrom
  rw [List.pairwise_flatMap]
  constructor
  · rintro ⟨i, voice⟩ _
    apply List.Pairwise.map _ _ (numbers _ 0)
    intro x y other
    exact .inr other
  · apply (numbers _ 0).imp
    rintro ⟨i, voice⟩ ⟨i', voice'⟩ other s hs s' hs'
    obtain ⟨_, -, rfl⟩ := List.mem_map.mp hs
    obtain ⟨_, -, rfl⟩ := List.mem_map.mp hs'
    exact .inl other

end Bytecode

namespace Program

variable (p : Program)

/-- Whatever a unit does in its turn, it takes no operands of other units. -/
theorem perform_operands (u : RunningUnit) (s : Moment) :
    Ends (p.perform u) s (fun _ s' => s'.operands = s.operands) (fun _ _ => True) := by
  unfold perform
  rw [Ends.bind_iff]
  apply (u.run_ends p s).mono
  · intro _ s' steady
    apply (p.trapTop_ends u.kind s').mono
    · rintro _ _ rfl
      exact steady.operands
    · intro _ _ _
      trivial
  · intro _ _ _
    trivial

/-- The units of a framed block have their turns in order. -/
theorem turnsOfVoice_sites {block : CodeBlock} (framed : block.Framed) (voice slot : Nat)
    (hs : slot + block.length ≤ maxUnits) {s : Moment} {more : List UInt8}
    (ho : s.operands = block.operands ++ more) (rest : List UInt8) :
    Ends (p.runUnits voice slot (block.opcodes ++ 0 :: rest)) s
      (fun later s' => later = rest ∧ s'.operands = more ∧
        (p.turnsOfVoice voice slot (block.opcodes ++ 0 :: rest) s).map (·.site) =
          block.sites voice slot)
      (fun _ _ => (p.turnsOfVoice voice slot (block.opcodes ++ 0 :: rest) s).map (·.site) <+:
          block.sites voice slot) := by
  induction block generalizing slot s with
  | nil => exact ⟨rfl, ho, rfl⟩
  | cons c block ih =>
    have here := framed c List.mem_cons_self
    obtain ⟨kind, hk, hl⟩ := framed c List.mem_cons_self
    rw [CodeBlock.operands_cons, List.append_assoc] at ho
    rw [List.length_cons] at hs
    rw [CodeBlock.opcodes_cons, List.cons_append, CodeBlock.sites, List.zipIdx_cons, List.map_cons]
    unfold runUnits turnsOfVoice
    rw [if_neg here.opcode_ne, if_neg here.opcode_ne, p.runUnit_eq, bind_assoc]
    have prepared := prepare_framed hk hl (show slot < maxUnits by omega) voice ho
    by_cases underflow : s.stack.length < stackNeed kind c.stereo
    · rw [if_pos underflow] at prepared
      unfold Ends
      simp only [prepared, EStateM.run_bind]
      exact List.nil_prefix
    · rw [if_neg underflow] at prepared
      obtain ⟨t, left, prepared⟩ : ∃ t, t.operands = CodeBlock.operands block ++ more ∧
          (prepare voice slot c.opcode).run s = .ok (c.running kind s voice slot) t :=
        ⟨_, rfl, prepared⟩
      have site : Turn.site ⟨c.opcode, c.running kind s voice slot, t⟩ = ⟨voice, slot, c⟩ := by
        unfold Turn.site CompiledUnit.running
        rw [List.take_append_drop]
      have kept := p.perform_operands (c.running kind s voice slot) t
      unfold Ends
      simp only [prepared, EStateM.run_bind, List.map_cons, site]
      cases performed : (p.perform (c.running kind s voice slot)).run t with
      | error e s' => exact List.prefix_append [_] _
      | ok _ s' =>
        have operands := (kept.of_ok performed).trans left
        apply (ih (fun c' h' => framed c' (List.mem_cons_of_mem _ h')) (slot + 1) (by omega)
          operands).mono
        · rintro later s'' ⟨rfl, left, turns⟩
          exact ⟨rfl, left, congrArg _ turns⟩
        · intro _ s'' turns
          exact List.cons_prefix_cons.mpr ⟨rfl, turns⟩

section Framed

variable (framed : ∀ block ∈ p.bytecode.blocks, block.Framed)
  (short : ∀ block ∈ p.bytecode.blocks, block.length ≤ maxUnits)
include framed short

theorem turnsOfVoices_sites (left voice i : Nat) {s : Moment}
    (ho : s.operands = CodeBlock.operandStream (p.bytecode.blocks.drop i)) :
    let ops := CodeBlock.opcodeStream (p.bytecode.blocks.drop i)
    Ends (p.runVoices left voice ops) s
      (fun _ _ => (p.turnsOfVoices left voice ops s).map (·.site) =
        p.bytecode.sitesFrom left voice i)
      (fun _ _ => (p.turnsOfVoices left voice ops s).map (·.site) <+:
        p.bytecode.sitesFrom left voice i) := by
  induction left generalizing voice i s with
  | zero => rfl
  | succ left ih =>
    rw [Bytecode.sitesFrom_succ]
    by_cases inside : i < p.bytecode.blocks.length
    · have member := List.getElem_mem inside
      have code := List.drop_eq_getElem_cons inside
      have stream : CodeBlock.opcodeStream (p.bytecode.blocks.drop i) =
          p.bytecode.blocks[i].opcodes ++
            0 :: CodeBlock.opcodeStream (p.bytecode.blocks.drop (i + 1)) := by
        rw [code, CodeBlock.opcodeStream_cons]
      have units := p.turnsOfVoice_sites (framed _ member) voice 0
        (by have := short _ member; omega) (ho.trans (by rw [code, CodeBlock.operandStream_cons]))
        (CodeBlock.opcodeStream (p.bytecode.blocks.drop (i + 1)))
      rw [← stream] at units
      rw [List.getElem?_eq_getElem inside, Option.getD_some]
      intro ops
      unfold runVoices turnsOfVoices
      simp only [Ends.bind_iff, Ends.get_iff]
      unfold Ends at units ⊢
      cases ran : (p.runUnits voice 0 ops).run s with
      | error e s' =>
        rw [ran] at units
        rw [List.append_nil]
        exact units.trans (List.prefix_append _ _)
      | ok rest s' =>
        rw [ran] at units
        obtain ⟨rfl, operands, turns⟩ := units
        rw [show p.bytecode.shares left = p.repeats left from rfl, ← turns]
        simp only [List.map_append]
        cases bit : p.repeats left with
        | true =>
          have again := @ih (voice + 1) i { s' with operands := s.operands } ho
          apply again.mono
          · intro _ _ all
            exact congrArg _ all
          · intro _ _ some_turns
            exact (List.prefix_append_right_inj _).mpr some_turns
        | false =>
          apply (ih (voice + 1) (i + 1) operands).mono
          · intro _ _ all
            exact congrArg _ all
          · intro _ _ some_turns
            exact (List.prefix_append_right_inj _).mpr some_turns
    · have none : p.bytecode.blocks.drop i = [] := List.drop_eq_nil_of_le (by omega)
      rw [none]
      exact List.nil_prefix

/-- A frame of framed code gives its units their turns in order. If it does not fail, all of them
have had theirs. -/
theorem turns_sites
    (streams : p.bytecode.opcodes = CodeBlock.opcodeStream p.bytecode.blocks ∧
      p.bytecode.operands = CodeBlock.operandStream p.bytecode.blocks)
    {s : Moment} (ho : s.operands = p.bytecode.operands) :
    Ends p.runFrame s (fun _ _ => (p.turns s).map (·.site) = p.bytecode.sites)
      (fun _ _ => (p.turns s).map (·.site) <+: p.bytecode.sites) := by
  obtain ⟨opcodes, operands⟩ := streams
  have voices := p.turnsOfVoices_sites framed short p.bytecode.voices 0 0
    (ho.trans (by rw [operands, List.drop_zero]))
  rw [List.drop_zero, ← opcodes] at voices
  unfold runFrame
  rw [Ends.bind_iff]
  apply voices.mono
  · intro _ s' all
    simp only [Ends.bind_iff, Ends.get_iff]
    split
    · exact all ▸ List.prefix_refl _
    · split
      · exact all ▸ List.prefix_refl _
      · exact all
  · intro _ _ some_turns
    exact some_turns

end Framed

end Program

end ModularSynth
