-- What runs of a machine come to. A claim about a run says what holds of the moment it
-- ends in, both when it gets to its end and when it stops at a fault.
import ModularSynth.Machine.Render

namespace ModularSynth

/-- What a run of `x` from `s` comes to: its value and the moment it ends in satisfy `done`,
or its fault and the moment of that satisfy `failed`. -/
def Ends {α : Type} (x : Exec α) (s : Moment) (done : α → Moment → Prop)
    (failed : RenderFault → Moment → Prop) : Prop :=
  match x.run s with
  | .ok a s' => done a s'
  | .error e s' => failed e s'

namespace Ends

variable {α β : Type} {s : Moment} {failed failed' : RenderFault → Moment → Prop}

theorem mono {x : Exec α} {done done' : α → Moment → Prop} (h : Ends x s done failed)
    (hd : ∀ a s', done a s' → done' a s') (hf : ∀ e s', failed e s' → failed' e s') :
    Ends x s done' failed' := by
  unfold Ends at *
  cases hx : x.run s with
  | ok a s' => rw [hx] at h; exact hd a s' h
  | error e s' => rw [hx] at h; exact hf e s' h

/-- What is to be shown of a run is shown of whatever it comes to. -/
theorem intro {x : Exec α} {done : α → Moment → Prop} (hd : ∀ a s', x.run s = .ok a s' → done a s')
    (hf : ∀ e s', x.run s = .error e s' → failed e s') : Ends x s done failed := by
  unfold Ends
  split
  · exact hd _ _ ‹_›
  · exact hf _ _ ‹_›

/-- Two facts about one run hold together. -/
theorem and {x : Exec α} {done done' : α → Moment → Prop} (h : Ends x s done failed)
    (h' : Ends x s done' failed') :
    Ends x s (fun a s' => done a s' ∧ done' a s') (fun e s' => failed e s' ∧ failed' e s') := by
  unfold Ends at *
  cases hx : x.run s with
  | ok a s' => rw [hx] at h h'; exact ⟨h, h'⟩
  | error e s' => rw [hx] at h h'; exact ⟨h, h'⟩

theorem congr {x y : Exec α} {done : α → Moment → Prop} (same : x.run s = y.run s) :
    Ends x s done failed ↔ Ends y s done failed := by
  unfold Ends
  rw [same]

/-- What is known of a run is known of the value it gives. -/
theorem of_ok {x : Exec α} {done : α → Moment → Prop} {a : α} {s' : Moment}
    (h : Ends x s done failed) (hx : x.run s = .ok a s') : done a s' := by
  unfold Ends at h
  rw [hx] at h
  exact h

/-- What is known of a run is known of the fault it stops at. -/
theorem of_error {x : Exec α} {done : α → Moment → Prop} {e : RenderFault} {s' : Moment}
    (h : Ends x s done failed) (hx : x.run s = .error e s') : failed e s' := by
  unfold Ends at h
  rw [hx] at h
  exact h

@[simp]
theorem pure_iff {a : α} {done : α → Moment → Prop} :
    Ends (pure a) s done failed ↔ done a s := Iff.rfl

@[simp]
theorem throw_iff {e : RenderFault} {done : α → Moment → Prop} :
    Ends (throw e) s done failed ↔ failed e s := Iff.rfl

@[simp]
theorem modify_iff {f : Moment → Moment} {done : PUnit → Moment → Prop} :
    Ends (modify f) s done failed ↔ done ⟨⟩ (f s) := Iff.rfl

@[simp]
theorem get_iff {done : Moment → Moment → Prop} :
    Ends get s done failed ↔ done s s := Iff.rfl

@[simp]
theorem bind_iff {x : Exec α} {f : α → Exec β} {done : β → Moment → Prop} :
    Ends (x >>= f) s done failed ↔ Ends x s (fun a s' => Ends (f a) s' done failed) failed := by
  unfold Ends
  rw [EStateM.run_bind]
  cases x.run s <;> rfl

end Ends

end ModularSynth
