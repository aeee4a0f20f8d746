-- What can be read from a machine after a part of it has changed: the voices, their slots
-- and the ports of these. Places out of range read as fresh and cannot be changed.
import ModularSynth.Machine.State

namespace ModularSynth

/-! ## Vectors -/

theorem adjust_getElem? {α : Type} {n : Nat} (v : Vector α n) (i j : Nat) (f : α → α) :
    (adjust v i f)[j]? = if i = j then v[j]?.map f else v[j]? := by
  unfold adjust
  rw [← Vector.getElem?_toArray, ← Vector.getElem?_toArray]
  exact Array.getElem?_modify

/-! ## Ports -/

namespace Slot

@[simp]
theorem port_clearPort (s : Slot) (i r : Nat) :
    (s.clearPort i).port r = if i = r then 0.0 else s.port r := by
  unfold port clearPort
  simp only [Vector.getElem?_setIfInBounds]
  by_cases h : i = r
  · subst h
    by_cases hi : i < 8 <;> simp [hi]
  · simp [h]

@[simp]
theorem port_clearPorts (s : Slot) (n r : Nat) :
    (s.clearPorts n).port r = if r < n then 0.0 else s.port r := by
  induction n with
  | zero => simp [clearPorts]
  | succ n ih =>
    rw [clearPorts, port_clearPort, ih]
    by_cases h : n = r
    · simp [h]
    · by_cases hr : r < n
      · simp [hr, Nat.lt_succ_of_lt hr]
      · simp [h, hr, show ¬ r < n + 1 by omega]

@[simp]
theorem port_addToPort (s : Slot) (i r : Nat) (x : Signal) :
    (s.addToPort i x).port r = if i = r ∧ r < 8 then s.port r + x else s.port r := by
  unfold port addToPort
  simp only [adjust_getElem?]
  by_cases h : i = r
  · by_cases hr : r < 8 <;> simp [h, hr]
  · simp [h]

end Slot

/-! ## Voices and slots -/

namespace Machine

theorem voice_adjustVoice (m : Machine) (v w : Nat) (f : Voice → Voice) :
    (m.adjustVoice v f).voice w = if v = w ∧ w < maxVoices then f (m.voice w) else m.voice w := by
  unfold voice adjustVoice
  simp only [adjust_getElem?]
  by_cases h : v = w
  · by_cases hw : w < maxVoices
    · simp [h, hw]
    · simp [h, hw]
  · simp [h]

theorem slot_adjustSlot (m : Machine) (v s w q : Nat) (f : Slot → Slot) :
    (m.adjustSlot v s f).slot w q =
      if v = w ∧ s = q ∧ w < maxVoices ∧ q < maxUnits then f (m.slot w q) else m.slot w q := by
  unfold slot adjustSlot Voice.slot
  rw [voice_adjustVoice]
  by_cases hv : v = w ∧ w < maxVoices
  · rw [if_pos hv]
    simp only [adjust_getElem?]
    by_cases hs : s = q
    · by_cases hq : q < maxUnits <;> simp [hs, hq, hv.1, hv.2]
    · simp [hs]
  · rw [if_neg hv, if_neg (fun h => hv ⟨h.1, h.2.2.1⟩)]

/-! ## Keys -/

end Machine

/-- What is played on a voice: its note, and whether that is held. -/
structure Key where
  note : Note := 0
  sustain : Bool := false
  deriving DecidableEq, Repr

namespace Machine

/-- What is played on a voice of a machine. -/
def key (m : Machine) (v : Nat) : Key :=
  ⟨(m.voice v).note, (m.voice v).sustain⟩

/-- The same is played on each voice of two machines. -/
def SameNotes (m m' : Machine) : Prop :=
  ∀ v, m'.key v = m.key v

namespace SameNotes

theorem refl (m : Machine) : SameNotes m m := fun _ => rfl

theorem trans {a b c : Machine} (h : SameNotes a b) (h' : SameNotes b c) : SameNotes a c :=
  fun v => (h' v).trans (h v)

theorem of_voices {m m' : Machine} (h : m'.voices = m.voices) : SameNotes m m' := by
  intro v
  unfold key voice
  rw [h]

/-- What a unit remembers is no part of the keys. -/
theorem adjustSlot (m : Machine) (v s : Nat) (f : Slot → Slot) :
    SameNotes m (m.adjustSlot v s f) := by
  intro w
  unfold key Machine.adjustSlot
  rw [voice_adjustVoice]
  split <;> rfl

end SameNotes

end Machine

end ModularSynth
