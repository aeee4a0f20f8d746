-- How a rendering goes from frame to frame. Each frame starts in a moment of its own: with the
-- machine, the stack and the array of parameters that the frame before it has left, after the two
-- channels that are heard have been taken off the bus.
import Mathlib.Data.List.Chain
import ModularSynth.Proofs.Ends
import ModularSynth.Synth

namespace ModularSynth

namespace Program

variable (p : Program)

/-! ## Starts -/

/-- The moment in which a frame starts. -/
def opening (m : Machine) (stack : Stack) (scratch : List Signal) (time : Int) : Moment :=
  ⟨m, stack, p.bytecode.operands, 0, time, scratch⟩

/-- Where the next frame starts, when one has come to its end. -/
def next (s : Moment) : Moment :=
  p.opening s.machine.advance s.stack s.scratch (s.time + 1)

/-- A frame comes to its end, and the next one starts from there. -/
def Follows (s s' : Moment) : Prop :=
  ∃ t, p.runFrame.run s = .ok () t ∧ s' = p.next t

/-- The moments in which the frames of a rendering start, from one on. A frame that fails is the
last. -/
def startsFrom (maxTime : Int) : (frames : Nat) → Moment → List Moment
  | 0, _ => []
  | frames + 1, s =>
    if s.time < maxTime then
      s :: match p.runFrame.run s with
        | .ok _ t => startsFrom maxTime frames (p.next t)
        | .error _ _ => []
    else []

/-- The moments in which the frames of a rendering start. -/
def starts (m : Machine) (frames : Nat) (maxTime : Int) : List Moment :=
  p.startsFrom maxTime frames (p.opening m Stack.start Moment.scratchStart 0)

/-- The frame that starts in a moment, if it does not fail. -/
def frame? (s : Moment) : Option Frame :=
  match p.runFrame.run s with
  | .ok _ t => some t.machine.output
  | .error _ _ => none

/-- The fault of the frame that starts in a moment. -/
def fault? (s : Moment) : Option RenderFault :=
  match p.runFrame.run s with
  | .ok _ _ => none
  | .error e _ => some e

/-- The machine after the frame that starts in a moment. What a frame that fails has put on the
bus is still there. -/
def leaves (s : Moment) : Machine :=
  match p.runFrame.run s with
  | .ok _ t => t.machine.advance
  | .error _ t => t.machine

section Frame

variable {p} {s t : Moment} {e : RenderFault}

theorem frame?_eq_some {f : Frame} :
    p.frame? s = some f ↔ ∃ t, p.runFrame.run s = .ok () t ∧ t.machine.output = f := by
  unfold frame?
  cases p.runFrame.run s with
  | ok _ t => simp
  | error e t => simp

theorem fault?_eq_some : p.fault? s = some e ↔ ∃ t, p.runFrame.run s = .error e t := by
  unfold fault?
  cases p.runFrame.run s with
  | ok _ t => simp
  | error e t => simp

theorem fault?_eq_none : p.fault? s = none ↔ ∃ t, p.runFrame.run s = .ok () t := by
  unfold fault?
  cases p.runFrame.run s with
  | ok _ t => simp
  | error e t => simp

theorem leaves_of_ok (ran : p.runFrame.run s = .ok () t) : p.leaves s = t.machine.advance := by
  unfold leaves
  rw [ran]

theorem leaves_of_error (ran : p.runFrame.run s = .error e t) : p.leaves s = t.machine := by
  unfold leaves
  rw [ran]

/-- Only a frame that does not fail is followed by another one. -/
theorem Follows.frame {s' : Moment} (h : p.Follows s s') : ∃ f, p.frame? s = some f := by
  obtain ⟨t, ran, -⟩ := h
  exact ⟨_, frame?_eq_some.mpr ⟨t, ran, rfl⟩⟩

end Frame

/-! ## From start to start -/

theorem startsFrom_ended {maxTime : Int} {left : Nat} {s : Moment}
    (ended : left = 0 ∨ maxTime ≤ s.time) : p.startsFrom maxTime left s = [] := by
  cases left with
  | zero => rfl
  | succ left =>
    rw [startsFrom, if_neg]
    omega

theorem startsFrom_of_ok {maxTime : Int} {left : Nat} {s t : Moment} (time : s.time < maxTime)
    (ran : p.runFrame.run s = .ok () t) :
    p.startsFrom maxTime (left + 1) s = s :: p.startsFrom maxTime left (p.next t) := by
  rw [startsFrom, if_pos time, ran]

theorem startsFrom_of_error {maxTime : Int} {left : Nat} {s t : Moment} {e : RenderFault}
    (time : s.time < maxTime) (ran : p.runFrame.run s = .error e t) :
    p.startsFrom maxTime (left + 1) s = [s] := by
  rw [startsFrom, if_pos time, ran]

/-- After a frame that does not fail, the machine is left as by the frames from the next one on. -/
theorem startsFrom_leaves {maxTime : Int} {left : Nat} {s t : Moment} (time : s.time < maxTime)
    (ran : p.runFrame.run s = .ok () t) (m : Machine) :
    ((p.startsFrom maxTime (left + 1) s).getLast?.map p.leaves).getD m =
      ((p.startsFrom maxTime left (p.next t)).getLast?.map p.leaves).getD (p.next t).machine := by
  rw [p.startsFrom_of_ok time ran, List.getLast?_cons]
  cases (p.startsFrom maxTime left (p.next t)).getLast? with
  | none => exact leaves_of_ok ran
  | some s' => rfl

theorem startsFrom_first (maxTime : Int) (frames : Nat) (s : Moment) :
    ∀ s' ∈ (p.startsFrom maxTime frames s).head?, s' = s := by
  cases frames with
  | zero => simp [startsFrom]
  | succ frames =>
    unfold startsFrom
    split
    · rintro s' ⟨⟩
      rfl
    · simp

/-- Each start but the first is where the frame before has led. -/
theorem startsFrom_chain (maxTime : Int) (frames : Nat) (s : Moment) :
    (p.startsFrom maxTime frames s).IsChain p.Follows := by
  induction frames generalizing s with
  | zero => exact .nil
  | succ frames ih =>
    by_cases time : s.time < maxTime
    · cases ran : p.runFrame.run s with
      | error e t =>
        rw [p.startsFrom_of_error time ran]
        exact .singleton s
      | ok _ t =>
        rw [p.startsFrom_of_ok time ran]
        apply (ih (p.next t)).cons
        intro s' first
        rw [p.startsFrom_first maxTime frames (p.next t) s' first]
        exact ⟨t, ran, rfl⟩
    · rw [p.startsFrom_ended (.inr (Int.not_lt.mp time))]
      exact .nil

/-- What holds of the first start, and goes on from start to start, holds of all of them. -/
theorem starts_induction (I : Moment → Prop) (m : Machine) (frames : Nat) (maxTime : Int)
    (first : I (p.opening m Stack.start Moment.scratchStart 0))
    (later : ∀ s s', p.Follows s s' → I s → I s') : ∀ s ∈ p.starts m frames maxTime, I s := by
  apply (p.startsFrom_chain maxTime frames _).induction I _ later
  intro some_start
  rw [p.startsFrom_first maxTime frames _ _ (List.head_mem_head? some_start)]
  exact first

/-- Each frame takes all operands anew, and the delay lines from the first on. -/
theorem starts_operands (m : Machine) (frames : Nat) (maxTime : Int) :
    ∀ s ∈ p.starts m frames maxTime, s.operands = p.bytecode.operands ∧ s.line = 0 := by
  apply p.starts_induction (fun s => s.operands = p.bytecode.operands ∧ s.line = 0)
  · exact ⟨rfl, rfl⟩
  · rintro s s' ⟨t, -, rfl⟩ -
    exact ⟨rfl, rfl⟩

/-! ## What comes of a rendering -/

/-- A rendering gives the frames that do not fail, the fault of the last frame if it fails, and the
machine as the last frame leaves it. -/
theorem renderFrom_starts (maxTime : Int) (frames : Nat) (m : Machine) (stack : Stack)
    (scratch : List Signal) (progress : Progress) (done : List Frame) :
    let r := p.renderFrom maxTime frames m stack scratch progress done
    let starts := p.startsFrom maxTime frames (p.opening m stack scratch progress.time)
    r.frames = done.reverse ++ starts.filterMap p.frame? ∧
      r.fault = starts.getLast? >>= p.fault? ∧
      r.machine = (starts.getLast?.map p.leaves).getD m := by
  induction frames generalizing m stack scratch progress done with
  | zero => simp [renderFrom, startsFrom]
  | succ frames ih =>
    rw [renderFrom]
    by_cases time : progress.time < maxTime
    · have opens : (p.opening m stack scratch progress.time).time < maxTime := time
      rw [if_pos time]
      cases hr : p.runFrame.run ⟨m, stack, p.bytecode.operands, 0, progress.time, scratch⟩ with
      | error e t =>
        have ran : p.runFrame.run (p.opening m stack scratch progress.time) = .error e t := hr
        rw [p.startsFrom_of_error opens ran]
        simp [ran, frame?, fault?, leaves]
      | ok _ t =>
        have ran : p.runFrame.run (p.opening m stack scratch progress.time) = .ok () t := hr
        obtain ⟨all, fault, machine⟩ := ih t.machine.advance t.stack t.scratch
          ⟨progress.samples + 1, t.time + 1⟩ (t.machine.output :: done)
        change _ = _ ++ (p.startsFrom maxTime frames (p.next t)).filterMap p.frame? at all
        change _ = (p.startsFrom maxTime frames (p.next t)).getLast? >>= p.fault? at fault
        change _ = ((p.startsFrom maxTime frames (p.next t)).getLast?.map p.leaves).getD _
          at machine
        rw [p.startsFrom_of_ok opens ran]
        simp only [all, fault, machine]
        cases later : p.startsFrom maxTime frames (p.next t) with
        | nil => simp [ran, frame?, fault?, leaves]
        | cons s rest => simp [ran, frame?, List.getLast?_cons]
    · rw [if_neg time, p.startsFrom_ended (.inr (Int.not_lt.mp time))]
      simp

theorem render_frames (m : Machine) (frames : Nat) (maxTime : Int) :
    (p.render m frames maxTime).frames = (p.starts m frames maxTime).filterMap p.frame? :=
  (p.renderFrom_starts maxTime frames m Stack.start Moment.scratchStart {} []).1

theorem render_fault_last (m : Machine) (frames : Nat) (maxTime : Int) :
    (p.render m frames maxTime).fault = (p.starts m frames maxTime).getLast? >>= p.fault? :=
  (p.renderFrom_starts maxTime frames m Stack.start Moment.scratchStart {} []).2.1

theorem render_machine (m : Machine) (frames : Nat) (maxTime : Int) :
    (p.render m frames maxTime).machine =
      ((p.starts m frames maxTime).getLast?.map p.leaves).getD m :=
  (p.renderFrom_starts maxTime frames m Stack.start Moment.scratchStart {} []).2.2

/-! ## The depth of the stack -/

/-- A frame that comes to its end leaves as many signals as stand at the bottom of the stack. -/
theorem runFrame_depth (s : Moment) :
    Ends p.runFrame s (fun _ t => t.stack.length = Stack.floor) fun _ _ => True := by
  unfold runFrame
  rw [Ends.bind_iff]
  cases hr : (p.runVoices p.bytecode.voices 0 p.bytecode.opcodes).run s with
  | error e t =>
    unfold Ends
    rw [hr]
    trivial
  | ok _ t =>
    unfold Ends
    rw [hr]
    change Ends _ t _ _
    simp only [Ends.bind_iff, Ends.get_iff]
    split
    · trivial
    · split
      · trivial
      · rw [Ends.pure_iff]
        omega

/-- Every frame starts with as many signals as stand at the bottom of the stack. -/
theorem starts_depth (m : Machine) (frames : Nat) (maxTime : Int) :
    ∀ s ∈ p.starts m frames maxTime, s.stack.length = Stack.floor := by
  apply p.starts_induction (·.stack.length = Stack.floor)
  · exact List.length_replicate
  · rintro s s' ⟨t, ran, rfl⟩ -
    have depth : t.stack.length = Stack.floor := (p.runFrame_depth s).of_ok ran
    exact depth

end Program

end ModularSynth
