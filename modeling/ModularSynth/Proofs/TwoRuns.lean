-- Two runs that go through moments related in some way. Both get to their ends with the same value
-- or both stop at the same fault, and the moments that they end in are related again. Frames come to
-- the same if their units do, even where the units of one run in another way.
import ModularSynth.Proofs.UnitRuns

namespace ModularSynth

/-- Two runs come to the same, in moments that are related. -/
inductive BothEnd {α : Type} (R : Moment → Moment → Prop) :
    EStateM.Result RenderFault Moment α → EStateM.Result RenderFault Moment α → Prop
  | ok {a : α} {s t : Moment} (related : R s t) : BothEnd R (.ok a s) (.ok a t)
  | error {e : RenderFault} {s t : Moment} (related : R s t) : BothEnd R (.error e s) (.error e t)

namespace BothEnd

variable {α : Type} {R : Moment → Moment → Prop} {s : Moment}
  {r : EStateM.Result RenderFault Moment α}

theorem of_ok {a : α} (h : BothEnd R (.ok a s) r) : ∃ t, r = .ok a t ∧ R s t := by
  cases h with
  | ok related => exact ⟨_, rfl, related⟩

theorem of_error {e : RenderFault} (h : BothEnd R (.error e s) r) :
    ∃ t, r = .error e t ∧ R s t := by
  cases h with
  | error related => exact ⟨_, rfl, related⟩

end BothEnd

/-- From related moments, two programs come to the same. -/
def SideBySide {α : Type} (R : Moment → Moment → Prop) (x y : Exec α) : Prop :=
  ∀ s t, R s t → BothEnd R (x.run s) (y.run t)

namespace SideBySide

variable {α β : Type} {R : Moment → Moment → Prop}

theorem pure (a : α) : SideBySide R (Pure.pure a) (Pure.pure a) := by
  intro s t related
  exact .ok related

theorem throw (e : RenderFault) :
    SideBySide R (MonadExcept.throw e : Exec α) (MonadExcept.throw e) := by
  intro s t related
  exact .error related

theorem modify {f g : Moment → Moment} (h : ∀ s t, R s t → R (f s) (g t)) :
    SideBySide R (modify f) (modify g) := by
  intro s t related
  exact .ok (h s t related)

/-- What comes after two runs may rely on what is known of the value of the first one. -/
theorem bind_of {x y : Exec α} {f g : α → Exec β} (good : α → Prop) (hx : SideBySide R x y)
    (values : ∀ s, Ends x s (fun a _ => good a) (fun _ _ => True))
    (hf : ∀ a, good a → SideBySide R (f a) (g a)) : SideBySide R (x >>= f) (y >>= g) := by
  intro s t related
  have ends := hx s t related
  rw [EStateM.run_bind, EStateM.run_bind]
  cases hr : x.run s with
  | ok a s' =>
    rw [hr] at ends
    obtain ⟨t', there, related'⟩ := ends.of_ok
    rw [there]
    exact hf a ((values s).of_ok hr) _ _ related'
  | error e s' =>
    rw [hr] at ends
    obtain ⟨t', there, related'⟩ := ends.of_error
    rw [there]
    exact .error related'

theorem bind {x y : Exec α} {f g : α → Exec β} (hx : SideBySide R x y)
    (hf : ∀ a, SideBySide R (f a) (g a)) : SideBySide R (x >>= f) (y >>= g) := by
  apply bind_of (fun _ => True) hx
  · intro s
    exact .intro (fun _ _ _ => trivial) fun _ _ _ => trivial
  · intro a _
    exact hf a

/-- What looks at its moment may go on from each of two moments in another way. -/
theorem get_bind {f g : Moment → Exec β}
    (h : ∀ s t, R s t → BothEnd R ((f s).run s) ((g t).run t)) :
    SideBySide R (MonadState.get >>= f) (MonadState.get >>= g) := h

theorem ite {c : Prop} [Decidable c] {x y x' y' : Exec α} (hx : SideBySide R x x')
    (hy : SideBySide R y y') : SideBySide R (if c then x else y) (if c then x' else y') := by
  split
  · exact hx
  · exact hy

/-- A check that throws, and what comes after it. -/
theorem check {c : Prop} [Decidable c] {e : RenderFault} {next next' : Unit → Exec α}
    (h : SideBySide R (next ()) (next' ())) :
    SideBySide R (if c then MonadExcept.throw e >>= next else next ())
      (if c then MonadExcept.throw e >>= next' else next' ()) := by
  split
  · intro s t related
    exact .error related
  · exact h

end SideBySide

/-! ## Frames side by side -/

/-- A relation between the moments of two runs that tells nothing apart of what a program reads
around its units: the stack and the operands. -/
structure Matching (R : Moment → Moment → Prop) : Prop where
  stack : ∀ {s t}, R s t → t.stack = s.stack
  operands : ∀ {s t}, R s t → t.operands = s.operands
  take : ∀ {s t} operands, R s t → R { s with operands } { t with operands }

namespace Moment

/-- The unit of some operands that is about to run in a slot of a voice. -/
def unit (s : Moment) (kind : UnitKind) (stereo : Bool) (voice slot : Nat)
    (leading extras : List UInt8) : RunningUnit where
  kind
  stereo
  voice
  slot
  note := (s.machine.voice voice).note
  held := (s.machine.voice voice).sustain
  leading
  params := Program.params ((s.machine.voice voice).slot slot) leading ++
    s.scratch.drop kind.operandCount
  extras

/-- The moment in which a unit has taken what modulates it. -/
def readied (s : Moment) (kind : UnitKind) (voice slot : Nat) (leading : List UInt8) : Moment :=
  { s with
    machine := s.machine.adjustSlot voice slot (·.clearPorts kind.operandCount)
    scratch := Program.params ((s.machine.voice voice).slot slot) leading ++
      s.scratch.drop kind.operandCount }

end Moment

namespace Program

variable {R : Moment → Moment → Prop} (h : Matching R) (p : Program)
include h

theorem takeOperands_sideBySide (count : Nat) :
    SideBySide R (takeOperands count) (takeOperands count) := by
  intro s t related
  unfold takeOperands
  simp only [EStateM.run_bind, EStateM.run_get]
  rw [h.operands related]
  split
  · exact .error related
  · exact .ok (h.take _ related)

theorem trapTop_sideBySide (kind : UnitKind) :
    SideBySide R (p.trapTop kind) (p.trapTop kind) := by
  intro s t related
  unfold trapTop
  simp only [EStateM.run_bind, EStateM.run_get]
  rw [h.stack related]
  split
  · split
    · exact .ok related
    · exact .error related
  · exact .ok related

variable {run run' : RunningUnit → Exec Unit}

/-- An opcode comes to the same in two runs if its unit does, once it has been made ready. -/
theorem runUnit_sideBySide {voice slot : Nat} (op : UInt8)
    (ready : ∀ {s t} kind {leading}, R s t → leading.length = UnitKind.operandCount kind →
      R (s.readied kind voice slot leading) (t.readied kind voice slot leading))
    (units : ∀ {s t} kind stereo {leading} extras, R s t →
      leading.length = UnitKind.operandCount kind →
        SideBySide R (run (s.unit kind stereo voice slot leading extras))
          (run' (t.unit kind stereo voice slot leading extras))) :
    SideBySide R (p.runUnit voice slot op run) (p.runUnit voice slot op run') := by
  unfold runUnit
  split
  · exact .throw _
  · rename_i kind _
    refine .check (.get_bind fun s t related => ?_)
    rw [h.stack related]
    refine SideBySide.check (.bind_of _ (takeOperands_sideBySide h _) (takeOperands_length _) ?_)
      _ _ related
    refine fun leading length => .get_bind fun s t related => ?_
    have first : R (s.readied kind voice slot leading) (t.readied kind voice slot leading) :=
      ready kind related length
    have rest : SideBySide R
        (takeOperands kind.extraOperandCount >>= fun extras =>
          run (s.unit kind (op % 2 == 1) voice slot leading extras) >>= fun _ => p.trapTop kind)
        (takeOperands kind.extraOperandCount >>= fun extras =>
          run' (t.unit kind (op % 2 == 1) voice slot leading extras) >>= fun _ => p.trapTop kind) :=
      .bind (takeOperands_sideBySide h _) fun extras =>
        .bind (units kind _ extras related length) fun _ => p.trapTop_sideBySide h kind
    exact rest _ _ first

omit h in
theorem runUnits_sideBySide {voice : Nat} (slot : Nat) (ops : List UInt8)
    (units : ∀ slot op,
      SideBySide R (p.runUnit voice slot op run) (p.runUnit voice slot op run')) :
    SideBySide R (p.runUnits voice slot ops run) (p.runUnits voice slot ops run') := by
  induction ops generalizing slot with
  | nil => exact .throw _
  | cons op rest ih => exact .ite (.pure _) (.bind (units slot op) fun _ => ih _)

/-- Voices from one on come to the same, as long as their units do. -/
theorem runVoices_sideBySide {left voice : Nat} (ops : List UInt8)
    (units : ∀ v < voice + left, ∀ slot op,
      SideBySide R (p.runUnit v slot op run) (p.runUnit v slot op run')) :
    SideBySide R (p.runVoices left voice ops run) (p.runVoices left voice ops run') := by
  induction left generalizing voice ops with
  | zero => exact .pure _
  | succ left ih =>
    have later : ∀ v < voice + 1 + left, ∀ slot op,
        SideBySide R (p.runUnit v slot op run) (p.runUnit v slot op run') :=
      fun v inside => units v (by omega)
    refine .get_bind fun s t related => ?_
    rw [h.operands related]
    refine SideBySide.bind (p.runUnits_sideBySide 0 ops (units voice (by omega)))
      (fun rest => ?_) _ _ related
    refine .ite (.bind (.modify fun s t => h.take _) fun _ => ih _ later) (ih _ later)

/-- A frame comes to the same in two runs if the units of all voices do. -/
theorem runFrame_sideBySide
    (units : ∀ v < p.bytecode.voices, ∀ slot op,
      SideBySide R (p.runUnit v slot op run) (p.runUnit v slot op run')) :
    SideBySide R (p.runFrame run) (p.runFrame run') := by
  refine .bind (p.runVoices_sideBySide h _ (by simpa using units)) fun _ =>
    .get_bind fun s t related => ?_
  rw [h.stack related]
  exact SideBySide.check (.ite (.throw _) (.pure _)) _ _ related

end Program

end ModularSynth
