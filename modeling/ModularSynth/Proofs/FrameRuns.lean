-- What frames keep. A relation between moments that every unit of a program keeps holds between
-- the start and the end of a frame, and of a part of one that stops at a fault. What frames keep,
-- renderings keep.
import ModularSynth.Proofs.CompiledCode
import ModularSynth.Proofs.UnitRuns

namespace ModularSynth

/-- Whatever a run comes to, its start and its end are related. -/
def Preserves {α : Type} (R : Moment → Moment → Prop) (x : Exec α) : Prop :=
  ∀ s, Ends x s (fun _ s' => R s s') (fun _ s' => R s s')

/-- A relation between moments that goes on from run to run, and that nothing a program does
around its units can break: taking operands, and making a unit ready to run. -/
structure Lasting (R : Moment → Moment → Prop) : Prop where
  refl : ∀ s, R s s
  trans : ∀ {a b c}, R a b → R b c → R a c
  operands : ∀ s operands, R s { s with operands }
  ready : ∀ s voice slot count scratch, R s { s with
    machine := s.machine.adjustSlot voice slot (·.clearPorts count)
    scratch }

namespace Preserves

variable {α β : Type} {R : Moment → Moment → Prop}

theorem pure (h : Lasting R) (a : α) : Preserves R (Pure.pure a) := h.refl

theorem throw (h : Lasting R) (e : RenderFault) :
    Preserves R (MonadExcept.throw e : Exec α) := h.refl

theorem get (h : Lasting R) : Preserves R (MonadState.get : Exec Moment) := h.refl

theorem modify {f : Moment → Moment} (h : ∀ s, R s (f s)) :
    Preserves R (modify f : Exec Unit) := h

theorem bind (h : Lasting R) {x : Exec α} {f : α → Exec β} (hx : Preserves R x)
    (hf : ∀ a, Preserves R (f a)) : Preserves R (x >>= f) := by
  intro s
  rw [Ends.bind_iff]
  apply (hx s).mono
  · intro a s' first
    exact (hf a s').mono (fun _ _ later => h.trans first later) fun _ _ later => h.trans first later
  · intro _ _ failed
    exact failed

theorem ite {c : Prop} [Decidable c] {x y : Exec α} (hx : Preserves R x) (hy : Preserves R y) :
    Preserves R (if c then x else y) := by
  by_cases h : c
  · rw [if_pos h]
    exact hx
  · rw [if_neg h]
    exact hy

/-- A check that throws, and what comes after it. -/
theorem check (h : Lasting R) {c : Prop} [Decidable c] {e : RenderFault}
    {next : Unit → Exec α} (hn : Preserves R (next ())) :
    Preserves R (if c then MonadExcept.throw e >>= next else next ()) := by
  by_cases hc : c
  · rw [if_pos hc]
    exact h.refl
  · rw [if_neg hc]
    exact hn

end Preserves

namespace Program

variable {R : Moment → Moment → Prop}

/-- Every unit that some opcodes stand for keeps a relation. -/
def UnitsPreserve (p : Program) (R : Moment → Moment → Prop) (ops : List UInt8) : Prop :=
  ∀ op ∈ ops, ∀ kind, CompiledUnit.kindOf? op = some kind →
    ∀ u : RunningUnit, u.kind = kind → Preserves R (u.run p)

theorem takeOperands_preserves (h : Lasting R) (count : Nat) :
    Preserves R (takeOperands count) := by
  unfold takeOperands
  apply Preserves.bind h (.get h)
  intro s
  split
  · exact .throw h _
  · exact .bind h (.modify fun s => h.operands s _) fun _ => .pure h _

theorem trapTop_preserves (h : Lasting R) (p : Program) (kind : UnitKind) :
    Preserves R (p.trapTop kind) := by
  unfold trapTop
  apply Preserves.bind h (.get h)
  intro s
  split
  · exact .ite (.pure h _) (.throw h _)
  · exact .pure h _

/-- The unit of an opcode is made ready for its slot and voice. It has as many operands as its kind
takes, and finds the signals that it needs on the stack. -/
theorem prepare_ends (voice slot : Nat) (op : UInt8) (s : Moment) :
    Ends (prepare voice slot op) s
      (fun u t => u.voice = voice ∧ u.slot = slot ∧ CompiledUnit.kindOf? op = some u.kind ∧
        u.stereo = (op % 2 == 1) ∧ u.leading.length = u.kind.operandCount ∧
        u.extras.length = u.kind.extraOperandCount ∧ stackNeed u.kind u.stereo ≤ t.stack.length)
      (fun _ _ => True) := by
  unfold prepare
  cases hk : UnitKind.ofOpcode? (op >>> 1).toNat with
  | none => trivial
  | some kind =>
    by_cases many : maxUnits ≤ slot
    · simp only [many, if_true]
      trivial
    · simp only [many, if_false, Ends.bind_iff, Ends.get_iff]
      by_cases underflow : s.stack.length < stackNeed kind (op % 2 == 1)
      · simp only [underflow, if_true]
        trivial
      · simp only [underflow, if_false, Ends.bind_iff, Ends.get_iff, Ends.modify_iff, Ends.pure_iff]
        apply (takeOperands_ends kind.operandCount s).mono
        · rintro leading t ⟨first, stack⟩
          apply (takeOperands_ends kind.extraOperandCount _).mono
          · rintro extras t' ⟨second, stack'⟩
            refine ⟨trivial, trivial, hk, trivial, first, second, ?_⟩
            rw [stack', stack]
            exact Nat.le_of_not_lt underflow
          · intro _ _ _
            trivial
        · intro _ _ _
          trivial

/-- Nothing that a relation ignores is changed while a unit is made ready. -/
theorem prepare_preserves (h : Lasting R) (voice slot : Nat) (op : UInt8) :
    Preserves R (prepare voice slot op) := by
  unfold prepare
  split
  · exact .throw h _
  · refine .check h (.bind h (.get h) fun s => .check h ?_)
    refine .bind h (takeOperands_preserves h _) fun leading => ?_
    refine .bind h (.get h) fun s => .bind h (.modify fun s => h.ready s _ _ _ _) fun _ => ?_
    exact .bind h (takeOperands_preserves h _) fun extras => .pure h _

/-- An opcode keeps what its unit keeps in the slot and the voice in which it runs. -/
theorem runUnit_keeps (h : Lasting R) (p : Program) (voice slot : Nat) {op : UInt8}
    (unit : ∀ kind, CompiledUnit.kindOf? op = some kind → ∀ u : RunningUnit, u.kind = kind →
      u.voice = voice → u.slot = slot → Preserves R (u.run p)) :
    Preserves R (p.runUnit voice slot op) := by
  intro s
  rw [p.runUnit_eq, Ends.bind_iff]
  apply ((prepare_ends voice slot op s).and (prepare_preserves h voice slot op s)).mono
  · rintro u t ⟨⟨hv, hs, hk, -⟩, ready⟩
    have whole : Preserves R (p.perform u) :=
      .bind h (unit _ hk u rfl hv hs) fun _ => trapTop_preserves h p u.kind
    exact (whole t).mono (fun _ _ later => h.trans ready later) fun _ _ later => h.trans ready later
  · rintro _ _ ⟨-, stopped⟩
    exact stopped

theorem runUnit_preserves (h : Lasting R) (p : Program) (voice slot : Nat) {op : UInt8}
    {ops : List UInt8} (units : p.UnitsPreserve R ops) (member : op ∈ ops) :
    Preserves R (p.runUnit voice slot op) := by
  apply runUnit_keeps h
  intro kind hk u same _ _
  exact units op member kind hk u same

/-- The opcodes after the units of a voice are some of those before. -/
theorem runUnits_preserves (h : Lasting R) (p : Program) (voice slot : Nat) {ops : List UInt8}
    (units : p.UnitsPreserve R ops) (s : Moment) :
    Ends (p.runUnits voice slot ops) s (fun rest s' => R s s' ∧ rest ⊆ ops)
      fun _ s' => R s s' := by
  induction ops generalizing slot s with
  | nil => exact h.refl s
  | cons op rest ih =>
    unfold runUnits
    by_cases last : op >>> 1 = 0
    · rw [if_pos last]
      exact ⟨h.refl s, List.subset_cons_self _ _⟩
    · rw [if_neg last, Ends.bind_iff]
      apply (runUnit_preserves h p voice slot units List.mem_cons_self s).mono
      · intro _ s' first
        apply (ih (slot + 1) (fun op hop => units op (List.mem_cons_of_mem _ hop)) s').mono
        · rintro others s'' ⟨later, inside⟩
          exact ⟨h.trans first later, fun op hop => List.mem_cons_of_mem _ (inside hop)⟩
        · intro _ _ later
          exact h.trans first later
      · intro _ _ failed
        exact failed

theorem runVoices_preserves (h : Lasting R) (p : Program) (left voice : Nat) {ops : List UInt8}
    (units : p.UnitsPreserve R ops) : Preserves R (p.runVoices left voice ops) := by
  induction left generalizing voice ops with
  | zero => exact .pure h _
  | succ left ih =>
    intro s
    unfold runVoices
    simp only [Ends.bind_iff, Ends.get_iff]
    apply (runUnits_preserves h p voice 0 units s).mono
    · rintro rest s' ⟨first, inside⟩
      split
      · rw [Ends.bind_iff, Ends.modify_iff]
        have back := h.trans first (h.operands s' s.operands)
        exact (ih (voice + 1) units _).mono (fun _ _ later => h.trans back later)
          fun _ _ later => h.trans back later
      · have others : p.UnitsPreserve R rest := fun op hop => units op (inside hop)
        exact (ih (voice + 1) others s').mono (fun _ _ later => h.trans first later)
          fun _ _ later => h.trans first later
    · intro _ _ failed
      exact failed

/-- A frame keeps what all of its units keep. -/
theorem runFrame_preserves (h : Lasting R) (p : Program)
    (units : p.UnitsPreserve R p.bytecode.opcodes) : Preserves R p.runFrame := by
  unfold runFrame
  apply Preserves.bind h (runVoices_preserves h p _ _ units)
  intro _
  apply Preserves.bind h (.get h)
  intro s
  exact .check h (.ite (.throw h _) (.pure h _))

/-! ## Renderings -/

/-- The rule for renderings. An invariant of what stands between two frames, with the number of
frames that are left, goes from frame to frame; what comes of it when there are no more frames or no
more time, and at a fault, comes of the rendering. -/
theorem renderFrom_ends (p : Program) {maxTime : Int}
    {I : Nat → Machine → Stack → List Signal → Progress → List Frame → Prop}
    {Q : Rendering → Prop}
    (stop : ∀ {left m stack scratch progress done}, I left m stack scratch progress done →
      left = 0 ∨ maxTime ≤ progress.time → Q ⟨m, done.reverse, progress, none⟩)
    (frame : ∀ {left m stack scratch progress done}, I (left + 1) m stack scratch progress done →
      progress.time < maxTime →
      Ends p.runFrame ⟨m, stack, p.bytecode.operands, 0, progress.time, scratch⟩
        (fun _ s => I left s.machine.advance s.stack s.scratch
          ⟨progress.samples + 1, s.time + 1⟩ (s.machine.output :: done))
        fun e s => Q ⟨s.machine, done.reverse, { progress with time := s.time }, some e⟩)
    {frames : Nat} {m : Machine} {stack : Stack} {scratch : List Signal} {progress : Progress}
    {done : List Frame} (here : I frames m stack scratch progress done) :
    Q (p.renderFrom maxTime frames m stack scratch progress done) := by
  induction frames generalizing m stack scratch progress done with
  | zero => exact stop here (.inl rfl)
  | succ frames ih =>
    rw [renderFrom]
    by_cases time : progress.time < maxTime
    · have ends := frame here time
      rw [if_pos time]
      cases ran : p.runFrame.run
        ⟨m, stack, p.bytecode.operands, 0, progress.time, scratch⟩ with
      | ok _ s => exact ih (ends.of_ok ran)
      | error e s => exact ends.of_error ran
    · rw [if_neg time]
      exact stop here (.inr (Int.not_lt.mp time))

/-- What every frame keeps of a machine, even when it fails, and what keeps when the frame is heard,
a rendering keeps. -/
theorem render_keeps (p : Program) {I : Machine → Prop}
    (frame : ∀ s, I s.machine → Ends p.runFrame s (fun _ t => I t.machine) fun _ t => I t.machine)
    (advance : ∀ m, I m → I m.advance) {m : Machine} (here : I m) (frames : Nat) (maxTime : Int) :
    I (p.render m frames maxTime).machine := by
  apply p.renderFrom_ends (I := fun _ m _ _ _ _ => I m) (Q := fun r => I r.machine)
  · intro _ _ _ _ _ _ here _
    exact here
  · intro _ _ _ _ _ _ here _
    exact (frame _ here).mono (fun _ _ => advance _) fun _ _ kept => kept
  · exact here

end Program

end ModularSynth
